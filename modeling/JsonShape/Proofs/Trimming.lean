import JsonShape.Proofs.Indifference

/-!
# Proofs: trimming

A value is *trimmed* to another one by leaving out entries of objects, at any depth, and nothing
else. Projections are trimmed values, and a value has only one projection to a shape; so creation is
described completely by the lenient check and by projection.
-/

namespace JsonShape

namespace Json

/-- A value is trimmed to another one: arrays item by item, objects by leaving out entries and
trimming the others, and everything else not at all. -/
inductive TrimsTo : Json → Json → Prop where
  | null : TrimsTo .null .null
  | bool (b : Bool) : TrimsTo (.bool b) (.bool b)
  | number (n : Number) : TrimsTo (.number n) (.number n)
  | string (s : String) : TrimsTo (.string s) (.string s)
  | array {items left : List Json} (hlength : items.length = left.length)
      (h : ∀ pair ∈ items.zip left, TrimsTo pair.1 pair.2) : TrimsTo (.array items) (.array left)
  | object {entries left : List (String × Json)} (hkeys : ∀ key ∈ keys left, key ∈ keys entries)
      (h : ∀ key old new, find? key entries = some old → find? key left = some new →
        TrimsTo old new) : TrimsTo (.object entries) (.object left)

/-- Nothing need be left out. -/
theorem TrimsTo.refl (value : Json) : value.TrimsTo value := by
  induction value with
  | null => exact .null
  | bool b => exact .bool b
  | number n => exact .number n
  | string s => exact .string s
  | array items ih =>
    refine .array rfl fun pair hpair => ?_
    rw [← eq_of_mem_zip_self hpair]
    exact ih pair.1 (List.of_mem_zip hpair).1
  | object entries ih =>
    refine .object (fun key hkey => hkey) fun key old new hold hnew => ?_
    rw [hold] at hnew
    cases hnew
    exact ih (key, old) (mem_of_find? hold)

end Json

/-! ## Projections -/

namespace Projects

variable {ds : Definitions} {shape : Shape} {value rebuilt : Json}

/-- A projection is the value with entries left out. -/
theorem trimsTo (h : Projects ds shape value rebuilt) : value.TrimsTo rebuilt := by
  induction h with
  | leaf _ value => exact .refl value
  | array hlength _ ih => exact .array hlength ih
  | object _ hkeys _ ih =>
    refine .object (fun key hkey => ((hkeys key).1 hkey).2) fun key old new hold hnew => ?_
    obtain ⟨p, hp, rfl, -⟩ := exists_of_find?_eq_some hkeys hnew
    exact ih p hp old new hold hnew
  | union _ _ _ _ ih => exact ih
  | reference _ _ ih => exact ih

end Projects

/-- What is created is exactly the projection of what passes the lenient check, and it is the value
with entries of objects left out. -/
theorem Binding.create_iff_projects {ds : Definitions} {r : Registry}
    (hr : Registry.compile ds = .ok r) {name : String} {shape : Shape}
    (hd : ds.get? name = some shape) :
    ∃ b, r.get? name = some b ∧ ∀ value rebuilt,
      (b.create value = .ok rebuilt ↔
        b.validate true value = .ok () ∧ Projects ds shape value rebuilt) ∧
      (b.create value = .ok rebuilt → value.TrimsTo rebuilt) := by
  obtain ⟨hw, rfl⟩ := Registry.compile_eq_ok hr
  have hslot := (Definitions.get?_eq_some_iff hw.distinct).1 hd
  refine ⟨_, Definitions.get?_link hw.distinct hslot, fun value rebuilt => ⟨?_, ?_⟩⟩
  · rw [hw.validate_decides hslot value]
    exact hw.create_eq_ok_iff hslot
  · intro hcreate
    exact ((hw.create_eq_ok_iff hslot).1 hcreate).2.trimsTo

/-- What is created of the wild tree is its projection. -/
theorem Binding.tree_projects :
    Registry.compile .forest = .ok Definitions.forest.link ∧
      Definitions.forest.get? "Tree" = some Definition.tree.shape ∧
      Projects .forest Definition.tree.shape .wildTree .tameTree ∧
      Json.wildTree.TrimsTo .tameTree := by
  have hr : Registry.compile .forest = .ok Definitions.forest.link := rfl
  have hd : Definitions.forest.get? "Tree" = some Definition.tree.shape := rfl
  obtain ⟨b, hb, hiff⟩ := Binding.create_iff_projects hr hd
  have hbinding : Definitions.forest.link.get? "Tree" =
      some (Definitions.forest.binding 0 .tree) := rfl
  rw [hbinding] at hb
  cases hb
  have hcreate : (Definitions.forest.binding 0 .tree).create .wildTree = .ok .tameTree := rfl
  obtain ⟨hcharacterised, htrims⟩ := hiff .wildTree .tameTree
  exact ⟨hr, hd, (hcharacterised.1 hcreate).2, htrims hcreate⟩

end JsonShape
