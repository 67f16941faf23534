import JsonShape.Proofs.Termination

/-!
# Proofs: conformance

What a shape means, said without validators, slots or an order of trial: `Conforms` is the least
relation between shapes and values that is closed under the rules below. Aliases are looked up by
name in the definitions. A check decides it.

A check that has a budget can also be stuck, and then says nothing; so the step lemmas are about
outcomes that decide a statement if they are not stuck.
-/

namespace JsonShape

/-- A value, or absence, has a shape. With `lenient` objects may have keys that are not declared. -/
inductive Conforms (ds : Definitions) (lenient : Bool) : Shape → Option Json → Prop where
  | any (value : Option Json) : Conforms ds lenient .any value
  | boolean (b : Bool) : Conforms ds lenient .boolean (some (.bool b))
  | null : Conforms ds lenient .null (some .null)
  | number (n : Number) : Conforms ds lenient .number (some (.number n))
  | string (s : String) : Conforms ds lenient .string (some (.string s))
  | undefined : Conforms ds lenient .undefined none
  /-- The literal says itself which values it accepts. -/
  | literal {l : Literal} {value : Json} (h : l.accepts value = true) :
      Conforms ds lenient (.literal l) (some value)
  | array {element : Shape} {items : List Json}
      (h : ∀ item ∈ items, Conforms ds lenient element (some item)) :
      Conforms ds lenient (.array element) (some (.array items))
  /-- Present properties conform, and so does the absence of required ones that are missing. -/
  | object {properties : List Property} {entries : List (String × Json)}
      (hkeys : lenient = true ∨ ∀ key ∈ Json.keys entries, key ∈ properties.map Property.name)
      (hpresent : ∀ p ∈ properties, ∀ value, Json.find? p.name entries = some value →
        Conforms ds lenient p.shape (some value))
      (hmissing : ∀ p ∈ properties, p.required = true → Json.find? p.name entries = none →
        Conforms ds lenient p.shape none) :
      Conforms ds lenient (.object properties) (some (.object entries))
  | union {members : List Shape} {member : Shape} {value : Option Json} (hm : member ∈ members)
      (h : Conforms ds lenient member value) : Conforms ds lenient (.union members) value
  | reference {name : String} {shape : Shape} {value : Option Json}
      (hd : ds.get? name = some shape) (h : Conforms ds lenient shape value) :
      Conforms ds lenient (.alias name) value

namespace Conforms

variable {ds : Definitions} {lenient : Bool}

theorem array_iff {element : Shape} {value : Option Json} :
    Conforms ds lenient (.array element) value ↔ ∃ items, value = some (.array items) ∧
      ∀ item ∈ items, Conforms ds lenient element (some item) := by
  constructor
  · intro h
    cases h with
    | array h => exact ⟨_, rfl, h⟩
  · rintro ⟨items, rfl, h⟩
    exact .array h

/-- A property is looked at if it is required or present. -/
theorem object_iff {properties : List Property} {value : Option Json} :
    Conforms ds lenient (.object properties) value ↔ ∃ entries, value = some (.object entries) ∧
      (lenient = true ∨ ∀ key ∈ Json.keys entries, key ∈ properties.map Property.name) ∧
      ∀ p ∈ properties, (p.required || (Json.find? p.name entries).isSome) = true →
        Conforms ds lenient p.shape (Json.find? p.name entries) := by
  constructor
  · intro h
    cases h with
    | object hkeys hpresent hmissing =>
      refine ⟨_, rfl, hkeys, fun p hp hlook => ?_⟩
      cases hfind : Json.find? p.name _ with
      | some child => exact hpresent p hp child hfind
      | none =>
        rw [hfind] at hlook
        exact hmissing p hp (by simpa using hlook) hfind
  · rintro ⟨entries, rfl, hkeys, hproperties⟩
    refine .object hkeys (fun p hp child hfind => ?_) (fun p hp hrequired hfind => ?_)
    · have := hproperties p hp (by simp [hfind])
      rwa [hfind] at this
    · have := hproperties p hp (by simp [hrequired])
      rwa [hfind] at this

theorem union_iff {members : List Shape} {value : Option Json} :
    Conforms ds lenient (.union members) value ↔
      ∃ member ∈ members, Conforms ds lenient member value := by
  constructor
  · intro h
    cases h with
    | union hm h => exact ⟨_, hm, h⟩
  · rintro ⟨member, hm, h⟩
    exact .union hm h

/-- A reference accepts what the shape of its name accepts. -/
theorem reference_iff {name : String} {shape : Shape} (hd : ds.get? name = some shape)
    {value : Option Json} :
    Conforms ds lenient (.alias name) value ↔ Conforms ds lenient shape value := by
  constructor
  · intro h
    cases h with
    | reference hd' h =>
      rw [hd] at hd'
      cases hd'
      exact h
  · exact .reference hd

/-- A strict check passes only what a lenient one passes. -/
theorem tolerate {shape : Shape} {x : Option Json} (h : Conforms ds lenient shape x) :
    Conforms ds true shape x := by
  induction h with
  | any => exact .any _
  | boolean b => exact .boolean b
  | null => exact .null
  | number n => exact .number n
  | string s => exact .string s
  | undefined => exact .undefined
  | literal h => exact .literal h
  | array _ ih => exact .array ih
  | object _ _ _ ihpresent ihmissing => exact .object (.inl rfl) ihpresent ihmissing
  | union hm _ ih => exact .union hm ih
  | reference hd _ ih => exact .reference hd ih

end Conforms

/-! ## One step of a check -/

namespace Validator

variable {ds : Definitions} {names : List String} {lenient : Bool} {path : List String}
  {enter : Nat → Option Json → Outcome Unit}

theorem undeclared?_eq_none_iff {properties : List Property} {entries : List (String × Json)} :
    undeclared? (ofProperties names properties) entries = none ↔
      ∀ key ∈ Json.keys entries, key ∈ properties.map Property.name := by
  rw [undeclared?, map_name_ofProperties, List.find?_eq_none]
  simp

/-- The keys of an object are looked at only where undeclared ones are not tolerated. -/
theorem allowed_iff (names : List String) {properties : List Property}
    {entries : List (String × Json)} :
    (if lenient then none else undeclared? (ofProperties names properties) entries) = none ↔
      lenient = true ∨ ∀ key ∈ Json.keys entries, key ∈ properties.map Property.name := by
  cases lenient with
  | true => simp
  | false => simp [undeclared?_eq_none_iff]

theorem checkProperties_decides {properties : List Property} {entries : List (String × Json)}
    (h : ∀ p ∈ properties, ∀ path,
      ((ofShape names p.shape).check enter lenient path (Json.find? p.name entries)).Decides
        (Conforms ds lenient p.shape (Json.find? p.name entries))) :
    (checkProperties enter lenient path entries (ofProperties names properties)).Decides
      (∀ p ∈ properties, (p.required || (Json.find? p.name entries).isSome) = true →
        Conforms ds lenient p.shape (Json.find? p.name entries)) := by
  induction properties with
  | nil => exact fun p hp => absurd hp List.not_mem_nil
  | cons p rest ih =>
    obtain ⟨name, shape, required⟩ := p
    have hfirst := h _ List.mem_cons_self (path ++ [name])
    have hrest := ih fun p hp => h p (List.mem_cons_of_mem _ hp)
    simp only [ofProperties, checkProperties]
    split
    · next hlook =>
      split
      · next hcheck =>
        rw [hcheck] at hfirst
        refine hrest.congr ?_
        rw [List.forall_mem_cons]
        exact ⟨fun hr => ⟨fun _ => hfirst, hr⟩, And.right⟩
      · next refusal hcheck =>
        rw [hcheck] at hfirst
        cases refusal with
        | failed failure => exact fun hall => hfirst (hall _ List.mem_cons_self hlook)
        | stuck => trivial
    · next hlook =>
      refine hrest.congr ?_
      rw [List.forall_mem_cons]
      exact ⟨fun hr => ⟨fun hl => absurd hl hlook, hr⟩, And.right⟩

theorem checkMembers_decides {members : List Shape} {last : Option Failure} {value : Option Json}
    (h : ∀ member ∈ members, ((ofShape names member).check enter lenient path value).Decides
      (Conforms ds lenient member value)) :
    (checkMembers enter lenient path last (ofMembers names members) value).Decides
      (∃ member ∈ members, Conforms ds lenient member value) := by
  induction members generalizing last with
  | nil =>
    have hempty : ¬∃ member ∈ [], Conforms ds lenient member value := by simp
    simp only [ofMembers, checkMembers]
    cases last <;> exact hempty
  | cons member rest ih =>
    have hfirst := h _ List.mem_cons_self
    simp only [ofMembers, checkMembers]
    split
    · next hcheck =>
      rw [hcheck] at hfirst
      exact ⟨member, List.mem_cons_self, hfirst⟩
    · next failure hcheck =>
      rw [hcheck] at hfirst
      refine (ih fun m hm => h m (List.mem_cons_of_mem _ hm)).congr ?_
      rw [List.exists_mem_cons_iff]
      exact ⟨.inr, fun hex => hex.resolve_left hfirst⟩
    · trivial

/-- If entering a slot decides conformance to the shape of its name, a check decides conformance to
its shape. -/
theorem check_decides {shape : Shape} (hw : shape.WellFormed names) {value : Option Json}
    (henter : ∀ name ∈ names, ∀ x,
      (enter (names.idxOf name) x).Decides (Conforms ds lenient (.alias name) x)) :
    ((ofShape names shape).check enter lenient path value).Decides
      (Conforms ds lenient shape value) := by
  induction shape generalizing value path with
  | reference name =>
    cases hw with
    | reference hm => exact henter name hm value
  | any => exact .any value
  | array element ih =>
    cases hw with
    | array hw =>
      rw [ofShape]
      by_cases harray : ∃ items, value = some (.array items)
      · obtain ⟨items, rfl⟩ := harray
        rw [check]
        refine (Outcome.decides_forM fun item _ => ih hw).congr ?_
        rw [Conforms.array_iff]
        simp
      · rw [check_array_of_ne (not_exists.1 harray)]
        refine Outcome.delivers_fail fun hc => harray ?_
        obtain ⟨items, hitems, -⟩ := Conforms.array_iff.1 hc
        exact ⟨items, hitems⟩
  | object properties ih =>
    cases hw with
    | object hd hw =>
      rw [ofShape]
      by_cases hobject : ∃ entries, value = some (.object entries)
      · obtain ⟨entries, rfl⟩ := hobject
        rw [check]
        split
        · next key hkey =>
          refine Outcome.delivers_fail fun hc => ?_
          obtain ⟨_, ⟨⟩, hkeys, -⟩ := Conforms.object_iff.1 hc
          rw [(allowed_iff names).2 hkeys] at hkey
          cases hkey
        · next hnone =>
          refine (checkProperties_decides fun p hp path => ih p hp (hw p hp)).congr ?_
          rw [Conforms.object_iff]
          constructor
          · exact fun hproperties => ⟨entries, rfl, (allowed_iff names).1 hnone, hproperties⟩
          · rintro ⟨_, ⟨⟩, -, hproperties⟩
            exact hproperties
      · rw [check_object_of_ne (not_exists.1 hobject)]
        refine Outcome.delivers_fail fun hc => hobject ?_
        obtain ⟨entries, hentries, -⟩ := Conforms.object_iff.1 hc
        exact ⟨entries, hentries⟩
  | union members ih =>
    cases hw with
    | union hw =>
      rw [ofShape, check]
      exact (checkMembers_decides fun m hm => ih m hm (hw m hm)).congr Conforms.union_iff.symm
  | boolean | null | number | string =>
    refine Outcome.decides_require ⟨fun h => ?_, fun h => ?_⟩
    · split at h
      · constructor
      · cases h
    · cases h
      rfl
  | literal l =>
    refine Outcome.decides_require ⟨fun h => ?_, fun h => ?_⟩
    · cases value with
      | none => cases h
      | some v => exact .literal h
    · cases h with
      | literal h => exact h
  | undefined =>
    refine Outcome.decides_require ⟨fun h => ?_, fun h => ?_⟩
    · rw [Option.isNone_iff_eq_none.1 h]
      exact .undefined
    · cases h
      rfl

end Validator

/-! ## All steps -/

namespace Definitions

variable {ds : Definitions} {slot : Nat} {d : Definition} {lenient : Bool}

theorem conforms_alias_iff (hd : ds.names.Nodup) (h : ds.types[slot]? = some d)
    {value : Option Json} :
    Conforms ds lenient (.alias d.name) value ↔ Conforms ds lenient d.shape value :=
  Conforms.reference_iff (get?_of_mem hd (List.mem_of_getElem? h))

/-- A check decides conformance as far as its budget reaches. -/
theorem WellFormed.checkWithin_decides (hw : ds.WellFormed) (h : ds.types[slot]? = some d)
    (lenient : Bool) (budget : Nat) (value : Option Json) :
    (ds.link.checkWithin lenient budget slot value).Decides
      (Conforms ds lenient d.shape value) := by
  induction budget generalizing slot d value with
  | zero => trivial
  | succ budget ih =>
    rw [checkWithin_succ h]
    refine Validator.check_decides (hw.shapes d (List.mem_of_getElem? h)) fun name hname x => ?_
    obtain ⟨shape, hshape⟩ := exists_of_mem_names hw.distinct hname
    exact (ih hshape x).congr (conforms_alias_iff hw.distinct hshape).symm

/-- A binding is validated with a budget that is enough. -/
theorem WellFormed.checkWithin_eq_validate (hw : ds.WellFormed) (h : ds.types[slot]? = some d)
    (value : Json) {budget : Nat} (hbudget : ds.link.enough (some value) ≤ budget) :
    ds.link.checkWithin lenient budget slot (some value) =
      ((ds.binding slot d).validate lenient value).mapError .failed := by
  obtain ⟨result, hresult⟩ := hw.exists_check h lenient (some value)
  have hvalidate : (ds.binding slot d).validate lenient value = result := by
    rw [Binding.validate]
    show Binding.report _ value (ds.link.checkWithin lenient (ds.link.budget value) slot _) = _
    rw [hresult _ (ds.link.enough_le_budget value)]
    cases result <;> rfl
  rw [hvalidate, hresult budget hbudget]

theorem WellFormed.validate_decides (hw : ds.WellFormed) (h : ds.types[slot]? = some d)
    (value : Json) :
    (ds.binding slot d).validate lenient value = .ok () ↔
      Conforms ds lenient d.shape (some value) := by
  have hdecides := hw.checkWithin_decides h lenient (ds.link.budget value) (some value)
  rw [hw.checkWithin_eq_validate h value (ds.link.enough_le_budget value)] at hdecides
  cases hv : (ds.binding slot d).validate lenient value with
  | error failure =>
    rw [hv] at hdecides
    exact ⟨nofun, fun hc => absurd hc hdecides⟩
  | ok x =>
    rw [hv] at hdecides
    exact ⟨fun _ => hdecides, fun _ => rfl⟩

end Definitions

/-- Validation decides conformance: every name of compiled definitions is bound, and a value is
validated exactly if it conforms to the shape of the name. -/
theorem Binding.validate_iff_conforms {ds : Definitions} {r : Registry}
    (hr : Registry.compile ds = .ok r) {name : String} {shape : Shape}
    (hd : ds.get? name = some shape) :
    ∃ b, r.get? name = some b ∧ ∀ lenient value,
      b.validate lenient value = .ok () ↔ Conforms ds lenient shape (some value) := by
  obtain ⟨hw, rfl⟩ := Registry.compile_eq_ok hr
  have hslot := (Definitions.get?_eq_some_iff hw.distinct).1 hd
  exact ⟨_, Definitions.get?_link hw.distinct hslot,
    fun lenient value => hw.validate_decides hslot value⟩

/-- A tree with an undeclared key passes the lenient check, as `Tree` is defined. -/
theorem Binding.tree_conforms :
    Registry.compile .forest = .ok Definitions.forest.link ∧
      Definitions.forest.get? "Tree" = some Definition.tree.shape ∧
      Conforms .forest true Definition.tree.shape
        (some (.object [("children", .array []), ("name", .string "oak"),
          ("value", .number .zero)])) := by
  have hr : Registry.compile .forest = .ok Definitions.forest.link := rfl
  have hd : Definitions.forest.get? "Tree" = some Definition.tree.shape := rfl
  obtain ⟨b, hb, hiff⟩ := Binding.validate_iff_conforms hr hd
  have hbinding : Definitions.forest.link.get? "Tree" =
      some (Definitions.forest.binding 0 .tree) := rfl
  rw [hbinding] at hb
  cases hb
  exact ⟨hr, hd, (hiff true _).1 rfl⟩

end JsonShape
