import JsonShape.Proofs.Conformance

/-!
# Proofs: projection

What rebuilding makes of a value, said without sanitizers and slots: `Projects` relates a value to
what a shape keeps of it. An object keeps the declared properties that are present, and a union
makes of a value what its first member does that accepts the value leniently.

Rebuilding a value that its shape accepts leniently ends with a projection. It cannot fail: every
failure of a sanitizer is one that the check would have met before.
-/

namespace JsonShape

/-- Whether a shape says nothing about parts of a value. -/
def Shape.isLeaf : Shape → Bool
  | .alias _ | .array _ | .object _ | .union _ => false
  | _ => true

/-- What a shape keeps of a value. -/
inductive Projects (ds : Definitions) : Shape → Json → Json → Prop where
  | leaf {shape : Shape} (h : shape.isLeaf = true) (value : Json) : Projects ds shape value value
  /-- Arrays keep their length and are related item by item. -/
  | array {element : Shape} {items rebuilt : List Json} (hlength : items.length = rebuilt.length)
      (h : ∀ pair ∈ items.zip rebuilt, Projects ds element pair.1 pair.2) :
      Projects ds (.array element) (.array items) (.array rebuilt)
  /-- Objects keep the declared properties that are present, in key order. -/
  | object {properties : List Property} {entries rebuilt : List (String × Json)}
      (hsorted : (Json.keys rebuilt).Pairwise (· < ·))
      (hkeys : ∀ key, key ∈ Json.keys rebuilt ↔
        key ∈ properties.map Property.name ∧ key ∈ Json.keys entries)
      (h : ∀ p ∈ properties, ∀ old new, Json.find? p.name entries = some old →
        Json.find? p.name rebuilt = some new → Projects ds p.shape old new) :
      Projects ds (.object properties) (.object entries) (.object rebuilt)
  /-- The first member that accepts the value decides. -/
  | union {members before after : List Shape} {member : Shape} {value rebuilt : Json}
      (hsplit : members = before ++ member :: after)
      (hbefore : ∀ other ∈ before, ¬Conforms ds true other (some value))
      (hmember : Conforms ds true member (some value)) (h : Projects ds member value rebuilt) :
      Projects ds (.union members) value rebuilt
  | reference {name : String} {shape : Shape} {value rebuilt : Json}
      (hd : ds.get? name = some shape) (h : Projects ds shape value rebuilt) :
      Projects ds (.alias name) value rebuilt

/-! ## One step of rebuilding -/

namespace Sanitizer

variable {ds : Definitions} {names : List String} {path : List String}
  {enter : Nat → Option Json → Outcome Unit} {enterRebuild : Nat → Json → Outcome Json}

/-- What is known of the rebuilt entries. -/
structure Rebuilt (ds : Definitions) (properties : List Property)
    (entries rebuilt : List (String × Json)) : Prop where
  sorted : (Json.keys rebuilt).Pairwise (· < ·)
  keys : ∀ key, key ∈ Json.keys rebuilt ↔
    key ∈ properties.map Property.name ∧ key ∈ Json.keys entries
  values : ∀ p ∈ properties, ∀ old new, Json.find? p.name entries = some old →
    Json.find? p.name rebuilt = some new → Projects ds p.shape old new

variable {p : Property} {rest : List Property} {entries rebuilt : List (String × Json)}

/-- A property that is absent adds nothing. -/
theorem Rebuilt.skip (h : Rebuilt ds rest entries rebuilt)
    (hnone : Json.find? p.name entries = none) : Rebuilt ds (p :: rest) entries rebuilt := by
  have habsent := Json.find?_eq_none_iff.1 hnone
  refine ⟨h.sorted, fun key => ?_, List.forall_mem_cons.2 ⟨fun old new hold => ?_, h.values⟩⟩
  · rw [h.keys, List.map_cons, List.mem_cons]
    constructor
    · rintro ⟨hdeclared, hpresent⟩
      exact ⟨.inr hdeclared, hpresent⟩
    · rintro ⟨rfl | hdeclared, hpresent⟩
      · exact absurd hpresent habsent
      · exact ⟨hdeclared, hpresent⟩
  · rw [hnone] at hold
    cases hold

/-- A property that is present adds what is made of its value. -/
theorem Rebuilt.insert (h : Rebuilt ds rest entries rebuilt)
    (hname : p.name ∉ rest.map Property.name) {child new : Json}
    (hchild : Json.find? p.name entries = some child) (hnew : Projects ds p.shape child new) :
    Rebuilt ds (p :: rest) entries (Json.insert p.name new rebuilt) := by
  refine ⟨Json.pairwise_keys_insert h.sorted, fun key => ?_, List.forall_mem_cons.2 ⟨?_, ?_⟩⟩
  · have hpresent : p.name ∈ Json.keys entries := Json.mem_keys_iff.2 ⟨child, hchild⟩
    rw [Json.mem_keys_insert, h.keys, List.map_cons, List.mem_cons]
    constructor
    · rintro (rfl | ⟨hdeclared, hkey⟩)
      · exact ⟨.inl rfl, hpresent⟩
      · exact ⟨.inr hdeclared, hkey⟩
    · rintro ⟨rfl | hdeclared, hkey⟩
      · exact .inl rfl
      · exact .inr ⟨hdeclared, hkey⟩
  · intro old value hold hvalue
    rw [hchild] at hold
    rw [Json.find?_insert, if_pos rfl] at hvalue
    cases hold
    cases hvalue
    exact hnew
  · intro other hother old value hold hvalue
    have hne : other.name ≠ p.name := by
      intro heq
      rw [← heq] at hname
      exact hname (List.mem_map.2 ⟨other, hother, rfl⟩)
    rw [Json.find?_insert, if_neg hne] at hvalue
    exact h.values other hother old value hold hvalue

theorem rebuildProperties_delivers {properties : List Property}
    (hd : (properties.map Property.name).Nodup)
    (h : ∀ p ∈ properties, ∀ child, Json.find? p.name entries = some child → ∀ path,
      ((ofShape names p.shape).rebuild enter enterRebuild true path child).Delivers
        (Conforms ds true p.shape (some child)) (Projects ds p.shape child)) :
    (rebuildProperties enter enterRebuild true path entries
      (ofProperties names properties)).Delivers
      (∀ p ∈ properties, ∀ child, Json.find? p.name entries = some child →
        Conforms ds true p.shape (some child)) (Rebuilt ds properties entries) := by
  induction properties with
  | nil => exact ⟨List.Pairwise.nil, by simp [Json.keys], by simp⟩
  | cons p rest ih =>
    obtain ⟨name, shape, required⟩ := p
    obtain ⟨hname, hdrest⟩ := List.nodup_cons.1 hd
    have hrest := ih hdrest fun p hp => h p (List.mem_cons_of_mem _ hp)
    simp only [ofProperties, rebuildProperties]
    split
    · next hnone =>
      refine hrest.imp (fun hall => (List.forall_mem_cons.1 hall).2) fun rebuilt hrebuilt => ?_
      exact hrebuilt.skip hnone
    · next child hchild =>
      have hfirst := h _ List.mem_cons_self child hchild (path ++ [name])
      refine (hfirst.mono fun hall => hall _ List.mem_cons_self child hchild).bind
        fun new hnew => ?_
      refine (hrest.mono fun hall => (List.forall_mem_cons.1 hall).2).bind fun others hothers => ?_
      exact hothers.insert hname hchild hnew

/-- What a union makes of a value is what the first accepting member makes of it. -/
theorem rebuildBranches_delivers {members : List Shape} {last : Option Failure} {value : Json}
    (hcheck : ∀ member ∈ members,
      ((Validator.ofShape names member).check enter true path (some value)).Decides
        (Conforms ds true member (some value)))
    (h : ∀ member ∈ members,
      ((ofShape names member).rebuild enter enterRebuild true path value).Delivers
        (Conforms ds true member (some value)) (Projects ds member value)) :
    (rebuildBranches enter enterRebuild true path last (ofMembers names members) value).Delivers
      (∃ member ∈ members, Conforms ds true member (some value))
      fun rebuilt => ∃ before member after, members = before ++ member :: after ∧
        (∀ other ∈ before, ¬Conforms ds true other (some value)) ∧
        Conforms ds true member (some value) ∧ Projects ds member value rebuilt := by
  induction members generalizing last with
  | nil =>
    have hempty : ¬∃ member ∈ [], Conforms ds true member (some value) := by simp
    simp only [ofMembers, rebuildBranches]
    cases last <;> exact hempty
  | cons member rest ih =>
    have hfirst := hcheck _ List.mem_cons_self
    simp only [ofMembers, rebuildBranches]
    split
    · next hresult =>
      rw [hresult] at hfirst
      refine (h _ List.mem_cons_self).imp (fun _ => hfirst) fun rebuilt hrebuilt => ?_
      exact ⟨[], member, rest, rfl, List.forall_mem_nil _, hfirst, hrebuilt⟩
    · next failure hresult =>
      rw [hresult] at hfirst
      refine (ih (fun m hm => hcheck m (List.mem_cons_of_mem _ hm))
        fun m hm => h m (List.mem_cons_of_mem _ hm)).imp ?_ ?_
      · rw [List.exists_mem_cons_iff]
        exact fun hex => hex.resolve_left hfirst
      · rintro rebuilt ⟨before, chosen, after, rfl, hbefore, hchosen, hrebuilt⟩
        refine ⟨member :: before, chosen, after, rfl, ?_, hchosen, hrebuilt⟩
        exact List.forall_mem_cons.2 ⟨hfirst, hbefore⟩
    · trivial

/-- If entering a slot decides conformance to the shape of its name and rebuilds its projection,
then rebuilding delivers the projection of its own shape. -/
theorem rebuild_delivers {shape : Shape} (hw : shape.WellFormed names) {value : Json}
    (henter : ∀ name ∈ names, ∀ x,
      (enter (names.idxOf name) x).Decides (Conforms ds true (.alias name) x))
    (hrebuild : ∀ name ∈ names, ∀ v, (enterRebuild (names.idxOf name) v).Delivers
      (Conforms ds true (.alias name) (some v)) (Projects ds (.alias name) v)) :
    ((ofShape names shape).rebuild enter enterRebuild true path value).Delivers
      (Conforms ds true shape (some value)) (Projects ds shape value) := by
  induction shape generalizing value path with
  | reference name =>
    cases hw with
    | reference hm => exact hrebuild name hm value
  | array element ih =>
    cases hw with
    | array hw =>
      rw [ofShape]
      by_cases harray : ∃ items, value = .array items
      · obtain ⟨items, rfl⟩ := harray
        rw [rebuild]
        refine ((Outcome.delivers_mapM fun item _ => ih hw).mono fun hc => ?_).bind ?_
        · obtain ⟨_, ⟨⟩, hitems⟩ := Conforms.array_iff.1 hc
          exact hitems
        · rintro rebuilt ⟨hlength, hpairs⟩
          exact .array hlength hpairs
      · rw [rebuild_array_of_ne (not_exists.1 harray)]
        refine Outcome.delivers_fail fun hc => harray ?_
        obtain ⟨items, ⟨⟩, -⟩ := Conforms.array_iff.1 hc
        exact ⟨items, rfl⟩
  | object properties ih =>
    cases hw with
    | object hd hw =>
      rw [ofShape]
      by_cases hobject : ∃ entries, value = .object entries
      · obtain ⟨entries, rfl⟩ := hobject
        rw [rebuild]
        refine ((rebuildProperties_delivers hd fun p hp child _ path =>
          ih p hp (hw p hp)).mono fun hc => ?_).bind ?_
        · obtain ⟨_, ⟨⟩, -, hproperties⟩ := Conforms.object_iff.1 hc
          intro p hp child hchild
          have := hproperties p hp (by simp [hchild])
          rwa [hchild] at this
        · intro rebuilt hrebuilt
          exact .object hrebuilt.sorted hrebuilt.keys hrebuilt.values
      · rw [rebuild_object_of_ne (not_exists.1 hobject)]
        refine Outcome.delivers_fail fun hc => hobject ?_
        obtain ⟨entries, ⟨⟩, -⟩ := Conforms.object_iff.1 hc
        exact ⟨entries, rfl⟩
  | union members ih =>
    cases hw with
    | union hw =>
      rw [ofShape, rebuild]
      refine (rebuildBranches_delivers (fun m hm => Validator.check_decides (hw m hm) henter)
        fun m hm => ih m hm (hw m hm)).imp Conforms.union_iff.1 ?_
      rintro rebuilt ⟨before, member, after, hsplit, hbefore, hmember, hrebuilt⟩
      exact .union hsplit hbefore hmember hrebuilt
  | _ => exact .leaf rfl value

end Sanitizer

/-! ## All steps -/

namespace Definitions

variable {ds : Definitions} {slot : Nat} {d : Definition}

/-- Rebuilding delivers the projection as far as its budget reaches. -/
theorem WellFormed.rebuildWithin_delivers (hw : ds.WellFormed) (h : ds.types[slot]? = some d)
    (budget : Nat) (value : Json) :
    (ds.link.rebuildWithin true budget slot value).Delivers
      (Conforms ds true d.shape (some value)) (Projects ds d.shape value) := by
  induction budget generalizing slot d value with
  | zero => trivial
  | succ budget ih =>
    rw [rebuildWithin_succ h]
    refine Sanitizer.rebuild_delivers (hw.shapes d (List.mem_of_getElem? h))
      (fun name hname x => ?_) fun name hname v => ?_
    · obtain ⟨shape, hshape⟩ := exists_of_mem_names hw.distinct hname
      exact (hw.checkWithin_decides hshape true budget x).congr
        (conforms_alias_iff hw.distinct hshape).symm
    · obtain ⟨shape, hshape⟩ := exists_of_mem_names hw.distinct hname
      refine (ih hshape v).imp (conforms_alias_iff hw.distinct hshape).1 fun rebuilt hrebuilt => ?_
      exact .reference ((get?_eq_some_iff hw.distinct).2 (by rwa [idxOf_name hw.distinct hshape]))
        hrebuilt

end Definitions

end JsonShape
