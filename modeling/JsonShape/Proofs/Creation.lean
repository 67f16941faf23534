import JsonShape.Proofs.Pairs
import JsonShape.Proofs.Projection

/-!
# Proofs: creation

Creating a value is a lenient check followed by rebuilding. Rebuilding adds no failure, so the entry
points of a binding agree on what is refused; and what it delivers has the declared shape even where
nothing undeclared is tolerated, since a projection of a value that conforms leniently conforms
strictly.
-/

namespace JsonShape

/-! ## Projections conform strictly -/

namespace Conforms

variable {ds : Definitions}

/-- Absence has no keys that could be tolerated. -/
theorem absent {shape : Shape} {lenient : Bool} (h : Conforms ds lenient shape none)
    (other : Bool) : Conforms ds other shape none := by
  generalize hvalue : (none : Option Json) = value at h
  induction h with
  | any => exact .any _
  | undefined => exact .undefined
  | union hm _ ih => exact .union hm (ih hvalue)
  | reference hd _ ih => exact .reference hd (ih hvalue)
  | _ => cases hvalue

theorem of_isLeaf {shape : Shape} {lenient : Bool} {value : Option Json}
    (h : Conforms ds lenient shape value) (hleaf : shape.isLeaf = true) (other : Bool) :
    Conforms ds other shape value := by
  cases h with
  | any => exact .any value
  | boolean b => exact .boolean b
  | null => exact .null
  | number n => exact .number n
  | string s => exact .string s
  | undefined => exact .undefined
  | literal h => exact .literal h
  | _ => cases hleaf

end Conforms

/-- The projection of a value that conforms leniently conforms strictly. -/
theorem Projects.conforms {ds : Definitions} {shape : Shape} {value rebuilt : Json}
    (h : Projects ds shape value rebuilt) (hc : Conforms ds true shape (some value)) :
    Conforms ds false shape (some rebuilt) := by
  induction h with
  | leaf hleaf value => exact hc.of_isLeaf hleaf false
  | @array element items rebuilt hlength _ ih =>
    obtain ⟨_, ⟨⟩, hitems⟩ := Conforms.array_iff.1 hc
    refine .array fun new hnew => ?_
    obtain ⟨old, hold, hpair⟩ := exists_of_mem_right hlength hnew
    exact ih (old, new) hpair (hitems old hold)
  | @object properties entries rebuilt _ hkeys _ ih =>
    cases hc with
    | object _ hpresent hmissing =>
      refine .object (.inr fun key hkey => ((hkeys key).1 hkey).1) ?_ ?_
      · intro p hp new hnew
        have hkey := ((hkeys p.name).1 (Json.mem_keys_iff.2 ⟨new, hnew⟩)).2
        obtain ⟨old, hold⟩ := Json.mem_keys_iff.1 hkey
        exact ih p hp old new hold hnew (hpresent p hp old hold)
      · intro p hp hrequired hnone
        have hkey : p.name ∉ Json.keys entries := by
          intro hkey
          have hdeclared : p.name ∈ properties.map Property.name := List.mem_map.2 ⟨p, hp, rfl⟩
          exact Json.find?_eq_none_iff.1 hnone ((hkeys p.name).2 ⟨hdeclared, hkey⟩)
        exact (hmissing p hp hrequired (Json.find?_eq_none_iff.2 hkey)).absent false
  | @union members before after member value rebuilt hsplit _ hmember _ ih =>
    -- a strict check of the result may stop at another member, but one that accepts is enough
    refine .union ?_ (ih hmember)
    rw [hsplit]
    exact List.mem_append_right _ List.mem_cons_self
  | reference hd _ ih =>
    exact .reference hd (ih ((Conforms.reference_iff hd).1 hc))

/-! ## What is created -/

namespace Definitions

variable {ds : Definitions} {slot : Nat} {d : Definition}

/-- Creation fails exactly as the lenient check does, and otherwise delivers a projection. -/
theorem WellFormed.create_cases (hw : ds.WellFormed) (h : ds.types[slot]? = some d)
    (value : Json) :
    (∃ failure, (ds.binding slot d).validate true value = .error failure ∧
      (ds.binding slot d).create value = .error failure) ∨
    ∃ rebuilt, (ds.binding slot d).validate true value = .ok () ∧
      (ds.binding slot d).create value = .ok rebuilt ∧ Projects ds d.shape value rebuilt := by
  unfold Binding.create
  cases hv : (ds.binding slot d).validate true value with
  | error failure => exact .inl ⟨failure, rfl, rfl⟩
  | ok _ =>
    right
    have hc := (hw.validate_decides h value).1 hv
    have hdelivers := hw.rebuildWithin_delivers h (ds.link.budget value) value
    obtain ⟨result, hresult⟩ := hw.exists_rebuild h true value
    rw [hresult _ (ds.link.enough_le_budget value)] at hdelivers
    cases result with
    | error failure => exact absurd hc hdelivers
    | ok rebuilt =>
      refine ⟨rebuilt, rfl, ?_, hdelivers⟩
      show Binding.report _ value (ds.link.rebuildWithin true (ds.link.budget value) slot value) = _
      rw [hresult _ (ds.link.enough_le_budget value)]
      rfl

theorem WellFormed.create_eq_error_iff (hw : ds.WellFormed) (h : ds.types[slot]? = some d)
    {value : Json} {failure : Failure} :
    (ds.binding slot d).create value = .error failure ↔
      (ds.binding slot d).validate true value = .error failure := by
  rcases hw.create_cases h value with ⟨other, hcheck, hcreate⟩ | ⟨rebuilt, hcheck, hcreate, -⟩
  · rw [hcheck, hcreate]
    simp
  · rw [hcheck, hcreate]
    simp

theorem WellFormed.exists_create_iff (hw : ds.WellFormed) (h : ds.types[slot]? = some d)
    {value : Json} :
    (∃ rebuilt, (ds.binding slot d).create value = .ok rebuilt) ↔
      (ds.binding slot d).validate true value = .ok () := by
  rcases hw.create_cases h value with ⟨other, hcheck, hcreate⟩ | ⟨rebuilt, hcheck, hcreate, -⟩
  · rw [hcheck, hcreate]
    simp
  · rw [hcheck, hcreate]
    simp

end Definitions

/-! ## Entry points -/

namespace CheckOptions

variable {outcome : Except Failure Unit} {lenient : Bool}

/-- Without a catcher failures are returned as they are. -/
theorem finish_eq_error_iff {failure : Failure} :
    ((⟨none, lenient⟩ : CheckOptions).finish outcome).1 = .error failure ↔
      outcome = .error failure := by
  cases outcome with
  | error other => simp [finish]
  | ok _ => simp [finish]

theorem finish_eq_true_iff {catcher : Option Catcher} :
    ((⟨catcher, lenient⟩ : CheckOptions).finish outcome).1 = .ok true ↔ outcome = .ok () := by
  cases outcome with
  | error failure => cases catcher <;> simp [finish]
  | ok _ => simp [finish]

theorem finish_ne_false : ((⟨none, lenient⟩ : CheckOptions).finish outcome).1 ≠ .ok false := by
  cases outcome <;> simp [finish]

/-- With a catcher no failure is returned. -/
theorem finish_ne_error {c : Catcher} {failure : Failure} :
    ((⟨some c, lenient⟩ : CheckOptions).finish outcome).1 ≠ .error failure := by
  cases outcome <;> simp [finish]

/-- The catcher keeps the message of the failure that would be returned without it. -/
theorem finish_caught_iff {c : Catcher} {message : String} :
    (⟨some c, lenient⟩ : CheckOptions).finish outcome = (.ok false, some ⟨some message⟩) ↔
      ∃ failure, outcome = .error failure ∧ failure.message = message := by
  cases outcome with
  | error failure => simp [finish]
  | ok _ => simp [finish]

theorem finish_untouched_iff {c : Catcher} :
    (⟨some c, lenient⟩ : CheckOptions).finish outcome = (.ok true, some c) ↔ outcome = .ok () := by
  cases outcome <;> simp [finish]

end CheckOptions

theorem Binding.isValid_iff {b : Binding} {value : Json} :
    b.isValid value = true ↔ b.validate false value = .ok () := by
  unfold isValid
  cases b.validate false value <;> simp [Except.isOk, Except.toBool]

/-- The entry points agree. Creation fails exactly with the failures of the lenient check, so
rebuilding adds none. With a catcher a check returns no failure: it answers that the value is not
valid and keeps the message exactly if the check without a catcher fails with that message, and it
answers that the value is valid and leaves the catcher alone exactly if the check without a catcher
succeeds. -/
theorem Binding.entry_points_agree {ds : Definitions} {r : Registry}
    (hr : Registry.compile ds = .ok r) {name : String} {b : Binding} (hb : r.get? name = some b)
    (value : Json) :
    (∀ failure, b.create value = .error failure ↔
      (b.validateWith ⟨none, true⟩ value).1 = .error failure) ∧
    ((∃ rebuilt, b.create value = .ok rebuilt) ↔
      (b.validateWith ⟨none, true⟩ value).1 = .ok true) ∧
    (∀ lenient, (b.validateWith ⟨none, lenient⟩ value).1 ≠ .ok false ∧ ∀ c,
      (∀ failure, (b.validateWith ⟨some c, lenient⟩ value).1 ≠ .error failure) ∧
      (∀ message, b.validateWith ⟨some c, lenient⟩ value = (.ok false, some ⟨some message⟩) ↔
        ∃ failure, (b.validateWith ⟨none, lenient⟩ value).1 = .error failure ∧
          failure.message = message) ∧
      (b.validateWith ⟨some c, lenient⟩ value = (.ok true, some c) ↔
        (b.validateWith ⟨none, lenient⟩ value).1 = .ok true)) ∧
    (b.isValid value = true ↔ (b.validateWith ⟨none, false⟩ value).1 = .ok true) := by
  obtain ⟨hw, rfl⟩ := Registry.compile_eq_ok hr
  obtain ⟨slot, d, hd, -, rfl⟩ := Definitions.exists_of_get?_link hb
  simp only [validateWith, CheckOptions.finish_eq_error_iff, CheckOptions.finish_eq_true_iff]
  refine ⟨fun failure => hw.create_eq_error_iff hd, hw.exists_create_iff hd,
    fun lenient => ⟨CheckOptions.finish_ne_false, fun c => ?_⟩, isValid_iff⟩
  refine ⟨fun failure => CheckOptions.finish_ne_error, fun message => ?_, ?_⟩
  · exact CheckOptions.finish_caught_iff
  · exact CheckOptions.finish_untouched_iff

/-- A tree whose value is a string is refused by creation, and so by the lenient check. -/
theorem Binding.tree_refused :
    Registry.compile .forest = .ok Definitions.forest.link ∧
      Definitions.forest.link.get? "Tree" = some (Definitions.forest.binding 0 .tree) ∧
      ((Definitions.forest.binding 0 .tree).validateWith ⟨none, true⟩
        (.object [("value", .string "1")])).1 =
        .error ⟨["Tree", "value"], .notNumber, some (.string "1")⟩ := by
  have hr : Registry.compile .forest = .ok Definitions.forest.link := rfl
  have hb : Definitions.forest.link.get? "Tree" = some (Definitions.forest.binding 0 .tree) := rfl
  have hagree := Binding.entry_points_agree hr hb (.object [("value", .string "1")])
  exact ⟨hr, hb, (hagree.1 _).1 rfl⟩

/-- What is created passes the strict check, though the value it is made of need not. -/
theorem Binding.isValid_create {ds : Definitions} {r : Registry}
    (hr : Registry.compile ds = .ok r) {name : String} {b : Binding} (hb : r.get? name = some b)
    {value rebuilt : Json} (hcreate : b.create value = .ok rebuilt) : b.isValid rebuilt = true := by
  obtain ⟨hw, rfl⟩ := Registry.compile_eq_ok hr
  obtain ⟨slot, d, hd, -, rfl⟩ := Definitions.exists_of_get?_link hb
  rcases hw.create_cases hd value with ⟨_, -, hfail⟩ | ⟨other, hcheck, hother, hprojects⟩
  · rw [hcreate] at hfail
    cases hfail
  · rw [hcreate] at hother
    cases hother
    have hlenient := (hw.validate_decides hd value).1 hcheck
    have hstrict := hprojects.conforms hlenient
    exact isValid_iff.2 ((hw.validate_decides hd rebuilt).2 hstrict)

/-- A tree with undeclared keys at two depths. -/
def Json.wildTree : Json :=
  .object [("children", .array [.object [("note", .null), ("value", .number .zero)]]),
    ("name", .string "oak"), ("value", .number .zero)]

/-- The tree that is created of it. -/
def Json.tameTree : Json :=
  .object [("children", .array [.object [("value", .number .zero)]]), ("value", .number .zero)]

theorem Binding.isValid_tree :
    Registry.compile .forest = .ok Definitions.forest.link ∧
      Definitions.forest.link.get? "Tree" = some (Definitions.forest.binding 0 .tree) ∧
      (Definitions.forest.binding 0 .tree).create .wildTree = .ok .tameTree ∧
      (Definitions.forest.binding 0 .tree).isValid .tameTree = true := by
  have hr : Registry.compile .forest = .ok Definitions.forest.link := rfl
  have hb : Definitions.forest.link.get? "Tree" = some (Definitions.forest.binding 0 .tree) := rfl
  have hcreate : (Definitions.forest.binding 0 .tree).create .wildTree = .ok .tameTree := rfl
  exact ⟨hr, hb, hcreate, Binding.isValid_create hr hb hcreate⟩

end JsonShape
