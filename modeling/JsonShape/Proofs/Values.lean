import JsonShape.Json.Basic

/-!
# Proofs: values

Induction over values, the height by which checks descend into a value, what looking up and
inserting do to the entries of an object, that sorted entries are determined by what is found in
them, and canonical values.
-/

namespace JsonShape.Json

/-- Induction over a value: the items of an array and the values of an object are taken for
granted. -/
@[elab_as_elim, induction_eliminator]
theorem induction {motive : Json → Prop}
    (null : motive .null) (bool : ∀ b, motive (.bool b)) (number : ∀ n, motive (.number n))
    (string : ∀ s, motive (.string s))
    (array : ∀ items, (∀ item ∈ items, motive item) → motive (.array items))
    (object : ∀ entries, (∀ entry ∈ entries, motive entry.2) → motive (.object entries)) :
    ∀ value, motive value :=
  @Json.rec motive (fun items => ∀ item ∈ items, motive item)
    (fun entries => ∀ entry ∈ entries, motive entry.2) (fun entry => motive entry.2)
    null bool number string array object
    (List.forall_mem_nil _) (fun _ _ h hs => List.forall_mem_cons.2 ⟨h, hs⟩)
    (List.forall_mem_nil _) (fun _ _ h hs => List.forall_mem_cons.2 ⟨h, hs⟩)
    (fun _ _ h => h)

/-! ## Height -/

/-- How far a check can descend into what it is given. Absence is below every value, since a check
reaches it only from an object that lacks a property. -/
def height : Option Json → Nat
  | none => 0
  | some value => value.depth + 1

theorem depth_le_depthItems {item : Json} {items : List Json} (h : item ∈ items) :
    item.depth ≤ depthItems items := by
  induction items with
  | nil => exact absurd h List.not_mem_nil
  | cons first rest ih =>
    simp only [depthItems]
    rcases List.mem_cons.1 h with rfl | h
    · exact Nat.le_max_left ..
    · exact Nat.le_trans (ih h) (Nat.le_max_right ..)

theorem depth_le_depthEntries {entry : String × Json} {entries : List (String × Json)}
    (h : entry ∈ entries) : entry.2.depth ≤ depthEntries entries := by
  induction entries with
  | nil => exact absurd h List.not_mem_nil
  | cons first rest ih =>
    simp only [depthEntries]
    rcases List.mem_cons.1 h with rfl | h
    · exact Nat.le_max_left ..
    · exact Nat.le_trans (ih h) (Nat.le_max_right ..)

theorem depth_item_lt {item : Json} {items : List Json} (h : item ∈ items) :
    item.depth < (Json.array items).depth := by
  rw [depth]
  exact Nat.lt_succ_of_le (depth_le_depthItems h)

/-- An item of an array is lower than the array. -/
theorem height_item_lt {item : Json} {items : List Json} (h : item ∈ items) :
    height (some item) < height (some (.array items)) :=
  Nat.succ_lt_succ (depth_item_lt h)

/-! ## Looking up -/

theorem mem_of_find? {key : String} {value : Json} {entries : List (String × Json)}
    (h : find? key entries = some value) : (key, value) ∈ entries := by
  induction entries with
  | nil => simp [find?] at h
  | cons entry rest ih =>
    obtain ⟨k, v⟩ := entry
    rw [find?] at h
    split at h
    · next hk =>
      cases h
      exact hk ▸ List.mem_cons_self
    · exact List.mem_cons_of_mem _ (ih h)

/-- The keys are those under which something is found. -/
theorem mem_keys_iff {key : String} {entries : List (String × Json)} :
    key ∈ keys entries ↔ ∃ value, find? key entries = some value := by
  induction entries with
  | nil => simp [find?, keys]
  | cons entry rest ih =>
    obtain ⟨k, v⟩ := entry
    rw [find?]
    split
    · next hk => simp [keys, hk]
    · next hk =>
      rw [← ih]
      simp [keys, Ne.symm hk]

theorem find?_eq_none_iff {key : String} {entries : List (String × Json)} :
    find? key entries = none ↔ key ∉ keys entries := by
  rw [mem_keys_iff, Option.eq_none_iff_forall_ne_some, not_exists]

/-- Entries that agree under a key, if only up to a function, both have it or both lack it. -/
theorem mem_keys_congr {key : String} {left right : List (String × Json)} {f : Json → Json}
    (h : (find? key left).map f = (find? key right).map f) :
    key ∈ keys left ↔ key ∈ keys right := by
  have hsome := congrArg Option.isSome h
  rw [Option.isSome_map, Option.isSome_map] at hsome
  rw [mem_keys_iff, mem_keys_iff, ← Option.isSome_iff_exists, ← Option.isSome_iff_exists, hsome]

theorem depth_lt_of_find? {key : String} {value : Json} {entries : List (String × Json)}
    (h : find? key entries = some value) : value.depth < (Json.object entries).depth := by
  rw [depth]
  exact Nat.lt_succ_of_le (depth_le_depthEntries (mem_of_find? h))

/-- What an object has under a key, be it a value or nothing, is lower than the object. -/
theorem height_find?_lt (key : String) (entries : List (String × Json)) :
    height (find? key entries) < height (some (.object entries)) := by
  cases h : find? key entries with
  | none => exact Nat.succ_pos _
  | some value => exact Nat.succ_lt_succ (depth_lt_of_find? h)

/-! ## Inserting -/

theorem find?_insert (key other : String) (value : Json) (entries : List (String × Json)) :
    find? other (insert key value entries) =
      if other = key then some value else find? other entries := by
  induction entries with
  | nil => by_cases h : other = key <;> simp [insert, find?, h, Ne.symm]
  | cons entry rest ih =>
    obtain ⟨k, v⟩ := entry
    rw [insert]
    split
    · by_cases h : other = key <;> simp [find?, h, Ne.symm]
    · split
      · next hk =>
        subst hk
        by_cases h : other = key <;> simp [find?, h, Ne.symm]
      · next hk =>
        by_cases h : k = other
        · subst h
          simp [find?, Ne.symm hk]
        · simp [find?, h, ih]

theorem mem_keys_insert {key other : String} {value : Json} {entries : List (String × Json)} :
    other ∈ keys (insert key value entries) ↔ other = key ∨ other ∈ keys entries := by
  rw [mem_keys_iff, mem_keys_iff, find?_insert]
  by_cases h : other = key <;> simp [h]

/-- Inserting keeps the keys sorted and distinct. -/
theorem pairwise_keys_insert {key : String} {value : Json} {entries : List (String × Json)}
    (h : (keys entries).Pairwise (· < ·)) :
    (keys (insert key value entries)).Pairwise (· < ·) := by
  induction entries with
  | nil => simp [insert, keys]
  | cons entry rest ih =>
    obtain ⟨k, v⟩ := entry
    obtain ⟨hk, hrest⟩ := List.pairwise_cons.1 h
    rw [insert]
    split
    · next hlt =>
      refine List.pairwise_cons.2 ⟨fun other ho => ?_, h⟩
      rcases List.mem_cons.1 ho with rfl | ho
      · exact hlt
      · exact String.lt_trans hlt (hk other ho)
    · next hge =>
      split
      · next heq =>
        subst heq
        exact h
      · next hne =>
        refine List.pairwise_cons.2 ⟨fun other ho => ?_, ih hrest⟩
        rcases mem_keys_insert.1 ho with rfl | ho
        · exact Std.lt_of_le_of_ne (String.not_lt.1 hge) (Ne.symm hne)
        · exact hk other ho

/-! ## Sorted entries -/

/-- Sorted entries are determined by what is found under each key. -/
theorem eq_of_find?_eq {left right : List (String × Json)}
    (hleft : (keys left).Pairwise (· < ·)) (hright : (keys right).Pairwise (· < ·))
    (h : ∀ key, find? key left = find? key right) : left = right := by
  induction left generalizing right with
  | nil =>
    cases right with
    | nil => rfl
    | cons entry rest => simpa [find?] using h entry.1
  | cons entry rest ih =>
    obtain ⟨key, value⟩ := entry
    cases right with
    | nil => simpa [find?] using h key
    | cons entry' rest' =>
      obtain ⟨key', value'⟩ := entry'
      obtain ⟨hfirst, hrest⟩ := List.pairwise_cons.1 hleft
      obtain ⟨hfirst', hrest'⟩ := List.pairwise_cons.1 hright
      -- each of the two first keys occurs in the other list, where none is smaller than the first
      have hkey : key = key' := by
        have hmem : key ∈ keys ((key', value') :: rest') :=
          mem_keys_iff.2 ⟨value, by rw [← h key, find?, if_pos rfl]⟩
        have hmem' : key' ∈ keys ((key, value) :: rest) :=
          mem_keys_iff.2 ⟨value', by rw [h key', find?, if_pos rfl]⟩
        rcases List.mem_cons.1 hmem with heq | hlt
        · exact heq
        · rcases List.mem_cons.1 hmem' with heq' | hlt'
          · exact heq'.symm
          · exact absurd (String.lt_trans (hfirst' key hlt) (hfirst key' hlt'))
              (String.lt_irrefl key')
      subst hkey
      have hvalue : value = value' := by simpa [find?] using h key
      subst hvalue
      have htail : ∀ other, find? other rest = find? other rest' := by
        intro other
        by_cases hother : key = other
        · subst hother
          have hnone : find? key rest = none :=
            find?_eq_none_iff.2 fun hm => String.lt_irrefl key (hfirst key hm)
          have hnone' : find? key rest' = none :=
            find?_eq_none_iff.2 fun hm => String.lt_irrefl key (hfirst' key hm)
          rw [hnone, hnone']
        · simpa [find?, hother] using h other
      rw [ih hrest hrest' htail]

/-- In sorted entries every entry is found. -/
theorem find?_of_mem {key : String} {value : Json} {entries : List (String × Json)}
    (hsorted : (keys entries).Pairwise (· < ·)) (h : (key, value) ∈ entries) :
    find? key entries = some value := by
  induction entries with
  | nil => exact absurd h List.not_mem_nil
  | cons entry rest ih =>
    obtain ⟨first, other⟩ := entry
    obtain ⟨hfirst, hrest⟩ := List.pairwise_cons.1 hsorted
    rcases List.mem_cons.1 h with heq | h
    · cases heq
      rw [find?, if_pos rfl]
    · have hlt : first < key := hfirst key (List.mem_map.2 ⟨(key, value), h, rfl⟩)
      have hne : first ≠ key := fun heq => String.lt_irrefl key (by rwa [heq] at hlt)
      rw [find?, if_neg hne]
      exact ih hrest h

/-! ## Canonical values -/

theorem canonical_array {items : List Json} :
    (Json.array items).Canonical ↔ ∀ item ∈ items, item.Canonical := by
  rw [Canonical]
  induction items with
  | nil => simp [CanonicalItems]
  | cons item rest ih => rw [CanonicalItems, ih, List.forall_mem_cons]

theorem canonical_object {entries : List (String × Json)} :
    (Json.object entries).Canonical ↔
      (keys entries).Pairwise (· < ·) ∧ ∀ entry ∈ entries, entry.2.Canonical := by
  rw [Canonical]
  refine and_congr_right' ?_
  induction entries with
  | nil => simp [CanonicalEntries]
  | cons entry rest ih => rw [CanonicalEntries, ih, List.forall_mem_cons]

end JsonShape.Json
