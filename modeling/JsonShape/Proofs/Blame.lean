import Mathlib.Logic.Relation
import JsonShape.Proofs.Conformance

/-!
# Proofs: what a failure blames

A failure names a place and what is wrong there. The place is found by *blame*: from a shape and
what is given to it, blame goes to the part that is the reason why the one does not have the other.
Arrays and objects hand it on to the first item or property at fault, references to the shape they
name, and unions to their last member. It comes to rest at a shape whose own test fails, and the
message of the failure is about that shape and what was given to it.

Blame is described by conformance alone, so that a message can be checked against the definitions
and the value without running anything.
-/

namespace JsonShape

open Relation

/-! ## Blame -/

/-- What a check has before it at some point. -/
structure Spot where
  /-- The shape that is checked. -/
  shape : Shape
  /-- What is given to it: a value, or nothing. -/
  value : Option Json
  /-- The path by which the check came here. -/
  path : List String

/-- Blame is handed on from one spot to another. -/
inductive Blames (ds : Definitions) (lenient : Bool) : Spot → Spot → Prop where
  /-- A reference blames the shape it names, where a new path starts. -/
  | reference {name : String} {shape : Shape} {value : Option Json} {path : List String}
      (hd : ds.get? name = some shape) :
      Blames ds lenient ⟨.alias name, value, path⟩ ⟨shape, value, [name]⟩
  /-- An array blames its first item that does not conform. -/
  | item {element : Shape} {before after : List Json} {item : Json} {path : List String}
      (hbefore : ∀ other ∈ before, Conforms ds lenient element (some other))
      (hitem : ¬Conforms ds lenient element (some item)) :
      Blames ds lenient ⟨.array element, some (.array (before ++ item :: after)), path⟩
        ⟨element, some item, path ++ ["*"]⟩
  /-- An object without undeclared keys blames its first property that does not conform. Optional
  properties that are absent are passed over. -/
  | property {before after : List Property} {p : Property} {entries : List (String × Json)}
      {path : List String}
      (hkeys : lenient = true ∨
        ∀ key ∈ Json.keys entries, key ∈ (before ++ p :: after).map Property.name)
      (hbefore : ∀ other ∈ before,
        (other.required || (Json.find? other.name entries).isSome) = true →
          Conforms ds lenient other.shape (Json.find? other.name entries))
      (hlook : (p.required || (Json.find? p.name entries).isSome) = true)
      (hp : ¬Conforms ds lenient p.shape (Json.find? p.name entries)) :
      Blames ds lenient ⟨.object (before ++ p :: after), some (.object entries), path⟩
        ⟨p.shape, Json.find? p.name entries, path ++ [p.name]⟩
  /-- A union none of whose members accepts the value blames the last of them. -/
  | member {before : List Shape} {last : Shape} {value : Option Json} {path : List String}
      (h : ∀ member ∈ before ++ [last], ¬Conforms ds lenient member value) :
      Blames ds lenient ⟨.union (before ++ [last]), value, path⟩ ⟨last, value, path⟩

/-- A shape's own test fails, with the wording of what is wrong. -/
inductive Misfit (lenient : Bool) : Shape → Option Json → List Char → Prop where
  | array {element : Shape} {value : Option Json} (h : ∀ items, value ≠ some (.array items)) :
      Misfit lenient (.array element) value "is not an array".toList
  | boolean {value : Option Json} (h : ∀ b, value ≠ some (.bool b)) :
      Misfit lenient .boolean value "is not a boolean".toList
  | literal {l : Literal} {value : Option Json} (h : ∀ v, value = some v → l.accepts v = false) :
      Misfit lenient (.literal l) value ("is not ".toList ++ l.toJson.compactChars)
  | null {value : Option Json} (h : value ≠ some .null) :
      Misfit lenient .null value "is not null".toList
  | number {value : Option Json} (h : ∀ n, value ≠ some (.number n)) :
      Misfit lenient .number value "is not a number".toList
  | object {properties : List Property} {value : Option Json}
      (h : ∀ entries, value ≠ some (.object entries)) :
      Misfit lenient (.object properties) value "is not an object".toList
  | string {value : Option Json} (h : ∀ s, value ≠ some (.string s)) :
      Misfit lenient .string value "is not a string".toList
  | undefined {value : Option Json} (h : value ≠ none) :
      Misfit lenient .undefined value "is not undefined".toList
  | union {value : Option Json} :
      Misfit lenient (.union []) value "matches no union member".toList
  /-- The key is the first that the object does not declare. -/
  | key {properties : List Property} {entries : List (String × Json)}
      {before after : List String} {key : String} (hstrict : lenient = false)
      (hkeys : Json.keys entries = before ++ key :: after)
      (hbefore : ∀ other ∈ before, other ∈ properties.map Property.name)
      (hkey : key ∉ properties.map Property.name) :
      Misfit lenient (.object properties) (some (.object entries))
        ("does not allow key \"".toList ++ key.toList ++ ['"'])

/-- A failure is about a spot to which blame leads. -/
def Blamed (ds : Definitions) (lenient : Bool) (spot : Spot) (failure : Failure) : Prop :=
  ∃ culprit, ReflTransGen (Blames ds lenient) spot culprit ∧ failure.path = culprit.path ∧
    failure.value = culprit.value ∧
    Misfit lenient culprit.shape culprit.value failure.problem.text

section Blamed

variable {ds : Definitions} {lenient : Bool} {spot next : Spot} {failure : Failure}
  {shape : Shape} {value : Option Json} {path : List String} {problem : Problem}

theorem Blamed.head (h : Blamed ds lenient next failure) (hstep : Blames ds lenient spot next) :
    Blamed ds lenient spot failure := by
  obtain ⟨culprit, hsteps, htold⟩ := h
  exact ⟨culprit, .head hstep hsteps, htold⟩

theorem blamed_of_fail (h : (Outcome.fail path problem value : Outcome Unit) =
      .error (.failed failure))
    (hmisfit : Misfit lenient shape value problem.text) :
    Blamed ds lenient ⟨shape, value, path⟩ failure := by
  cases h
  exact ⟨_, .refl, rfl, rfl, hmisfit⟩

theorem blamed_of_require {ok : Bool}
    (h : Outcome.require ok path problem value = .error (.failed failure))
    (hmisfit : ok = false → Misfit lenient shape value problem.text) :
    Blamed ds lenient ⟨shape, value, path⟩ failure := by
  cases ok with
  | true => cases h
  | false => exact blamed_of_fail h (hmisfit rfl)

end Blamed

/-! ## One step of a check -/

namespace Validator

variable {ds : Definitions} {names : List String} {lenient : Bool} {path : List String}
  {enter : Nat → Option Json → Outcome Unit} {failure : Failure}

/-- The properties of an object are checked up to the first that fails. -/
theorem exists_of_checkProperties_eq_error {properties : List Property}
    {entries : List (String × Json)} {refusal : Refusal}
    (h : checkProperties enter lenient path entries (ofProperties names properties) =
      .error refusal) :
    ∃ before p after, properties = before ++ p :: after ∧
      (∀ other ∈ before, (other.required || (Json.find? other.name entries).isSome) = true →
        (ofShape names other.shape).check enter lenient (path ++ [other.name])
          (Json.find? other.name entries) = .ok ()) ∧
      (p.required || (Json.find? p.name entries).isSome) = true ∧
      (ofShape names p.shape).check enter lenient (path ++ [p.name])
        (Json.find? p.name entries) = .error refusal := by
  induction properties with
  | nil => cases h
  | cons p rest ih =>
    obtain ⟨name, shape, required⟩ := p
    simp only [ofProperties, checkProperties] at h
    split at h
    · next hlook =>
      split at h
      · next hpassed =>
        obtain ⟨before, p, after, rfl, hbefore, hp⟩ := ih h
        refine ⟨⟨name, shape, required⟩ :: before, p, after, rfl, ?_, hp⟩
        exact List.forall_mem_cons.2 ⟨fun _ => hpassed, hbefore⟩
      · next hfailed =>
        cases h
        exact ⟨[], _, rest, rfl, List.forall_mem_nil _, hlook, hfailed⟩
    · next hlook =>
      obtain ⟨before, p, after, rfl, hbefore, hp⟩ := ih h
      refine ⟨⟨name, shape, required⟩ :: before, p, after, rfl, ?_, hp⟩
      exact List.forall_mem_cons.2 ⟨fun hlooked => absurd hlooked hlook, hbefore⟩

/-- The failure of a union that has members is that of the last one. -/
theorem exists_of_checkMembers_eq_failed {members : List Shape} {last : Option Failure}
    {value : Option Json} (hne : members ≠ [])
    (h : checkMembers enter lenient path last (ofMembers names members) value =
      .error (.failed failure)) :
    ∃ before member, members = before ++ [member] ∧
      (ofShape names member).check enter lenient path value = .error (.failed failure) := by
  induction members generalizing last with
  | nil => exact absurd rfl hne
  | cons member rest ih =>
    simp only [ofMembers, checkMembers] at h
    split at h
    · cases h
    · next hfailed =>
      by_cases hrest : rest = []
      · subst hrest
        cases h
        exact ⟨[], member, rfl, hfailed⟩
      · obtain ⟨before, final, rfl, hfinal⟩ := ih hrest h
        exact ⟨member :: before, final, rfl, hfinal⟩
    · cases h

/-- The key that is found to be undeclared is the first one that is. -/
theorem exists_of_undeclared?_eq_some {properties : List Property}
    {entries : List (String × Json)} {key : String}
    (h : undeclared? (ofProperties names properties) entries = some key) :
    ∃ before after, Json.keys entries = before ++ key :: after ∧
      (∀ other ∈ before, other ∈ properties.map Property.name) ∧
      key ∉ properties.map Property.name := by
  rw [undeclared?, map_name_ofProperties] at h
  obtain ⟨hkey, before, after, hkeys, hbefore⟩ := List.find?_eq_some_iff_append.1 h
  refine ⟨before, after, hkeys, fun other hother => ?_, by simpa using hkey⟩
  simpa using hbefore other hother

/-- If the failures of a slot are about a spot to which the reference leads, then those of a check
are about a spot to which its shape leads. -/
theorem check_blames {shape : Shape} (hw : shape.WellFormed names) {value : Option Json}
    (henter : ∀ name ∈ names, ∀ x,
      (enter (names.idxOf name) x).Decides (Conforms ds lenient (.alias name) x))
    (hblames : ∀ name ∈ names, ∀ x failure, enter (names.idxOf name) x = .error (.failed failure) →
      ∀ path, Blamed ds lenient ⟨.alias name, x, path⟩ failure)
    (h : (ofShape names shape).check enter lenient path value = .error (.failed failure)) :
    Blamed ds lenient ⟨shape, value, path⟩ failure := by
  induction shape generalizing value path with
  | reference name =>
    cases hw with
    | reference hm => exact hblames name hm value failure h path
  | any => cases h
  | array element ih =>
    cases hw with
    | array hw =>
      rw [ofShape] at h
      by_cases harray : ∃ items, value = some (.array items)
      · obtain ⟨items, rfl⟩ := harray
        rw [check] at h
        obtain ⟨before, item, after, rfl, hbefore, hitem⟩ := exists_of_forM_eq_error h
        refine (ih hw hitem).head (.item (fun other hother => ?_) ?_)
        · exact (check_decides hw henter).of_ok (hbefore other hother)
        · exact (check_decides hw henter).not_of_failed hitem
      · rw [check_array_of_ne (not_exists.1 harray)] at h
        exact blamed_of_fail h (.array (not_exists.1 harray))
  | object properties ih =>
    cases hw with
    | object hd hw =>
      rw [ofShape] at h
      by_cases hobject : ∃ entries, value = some (.object entries)
      · obtain ⟨entries, rfl⟩ := hobject
        rw [check] at h
        split at h
        · next key hkey =>
          cases lenient with
          | true => cases hkey
          | false =>
            obtain ⟨before, after, hkeys, hbefore, hkey⟩ := exists_of_undeclared?_eq_some hkey
            exact blamed_of_fail h (.key rfl hkeys hbefore hkey)
        · next hnone =>
          obtain ⟨before, p, after, rfl, hbefore, hlook, hp⟩ :=
            exists_of_checkProperties_eq_error h
          have hmem : p ∈ before ++ p :: after := List.mem_append_right _ List.mem_cons_self
          refine (ih p hmem (hw p hmem) hp).head
            (.property ((allowed_iff names).1 hnone) (fun other hother hlooked => ?_) hlook ?_)
          · have hwother := hw other (List.mem_append_left _ hother)
            exact (check_decides hwother henter).of_ok (hbefore other hother hlooked)
          · exact (check_decides (hw p hmem) henter).not_of_failed hp
      · rw [check_object_of_ne (not_exists.1 hobject)] at h
        exact blamed_of_fail h (.object (not_exists.1 hobject))
  | union members ih =>
    have hnone := (check_decides hw henter).not_of_failed h
    rw [Conforms.union_iff, not_exists] at hnone
    cases hw with
    | union hw =>
      rw [ofShape, check] at h
      by_cases hempty : members = []
      · subst hempty
        exact blamed_of_fail h .union
      · obtain ⟨before, last, rfl, hlast⟩ := exists_of_checkMembers_eq_failed hempty h
        have hmem : last ∈ before ++ [last] := List.mem_append_right _ List.mem_cons_self
        refine (ih last hmem (hw last hmem) hlast).head (.member fun member hm hc => ?_)
        exact hnone member ⟨hm, hc⟩
  | boolean =>
    refine blamed_of_require h fun hok => .boolean ?_
    rintro b rfl
    cases hok
  | literal l =>
    refine blamed_of_require h fun hok => .literal ?_
    rintro v rfl
    exact hok
  | null =>
    refine blamed_of_require h fun hok => .null ?_
    rintro rfl
    cases hok
  | number =>
    refine blamed_of_require h fun hok => .number ?_
    rintro n rfl
    cases hok
  | string =>
    refine blamed_of_require h fun hok => .string ?_
    rintro s rfl
    cases hok
  | undefined =>
    refine blamed_of_require h fun hok => .undefined ?_
    rintro rfl
    cases hok

end Validator

/-! ## All steps -/

/-- Every failure of a check is about a spot to which blame leads from the shape in the slot. -/
theorem Definitions.WellFormed.checkWithin_blames {ds : Definitions} (hw : ds.WellFormed)
    {slot : Nat} {d : Definition} (h : ds.types[slot]? = some d) {lenient : Bool} {budget : Nat}
    {value : Option Json} {failure : Failure}
    (hfailed : ds.link.checkWithin lenient budget slot value = .error (.failed failure)) :
    Blamed ds lenient ⟨d.shape, value, [d.name]⟩ failure := by
  induction budget generalizing slot d value failure with
  | zero => cases hfailed
  | succ budget ih =>
    rw [checkWithin_succ h] at hfailed
    refine Validator.check_blames (hw.shapes d (List.mem_of_getElem? h)) (fun name hname x => ?_)
      (fun name hname x other hother path => ?_) hfailed
    · obtain ⟨shape, hshape⟩ := exists_of_mem_names hw.distinct hname
      exact (hw.checkWithin_decides hshape lenient budget x).congr
        (conforms_alias_iff hw.distinct hshape).symm
    · obtain ⟨shape, hshape⟩ := exists_of_mem_names hw.distinct hname
      exact (ih hshape hother).head (.reference ((get?_eq_some_iff hw.distinct).2 hshape))

/-- Failures point at the culprit. From the name of a shape and the value, blame leads to a spot
where a shape's own test fails, and the message consists of the path to it, what is wrong there, and
what stands there. -/
theorem Binding.failure_blames {ds : Definitions} {r : Registry} (hr : Registry.compile ds = .ok r)
    {name : String} {shape : Shape} (hd : ds.get? name = some shape) :
    ∃ b, r.get? name = some b ∧ ∀ lenient value failure, b.validate lenient value = .error failure →
      ∃ culprit text,
        ReflTransGen (Blames ds lenient) ⟨shape, some value, [name]⟩ culprit ∧
        Misfit lenient culprit.shape culprit.value text ∧
        failure.message = String.ofList ((".".intercalate culprit.path).toList ++
          ' ' :: text ++ ':' :: '\n' :: Failure.valueText culprit.value) := by
  obtain ⟨hw, rfl⟩ := Registry.compile_eq_ok hr
  have hslot := (Definitions.get?_eq_some_iff hw.distinct).1 hd
  refine ⟨_, Definitions.get?_link hw.distinct hslot, fun lenient value failure hfailed => ?_⟩
  have hcheck : ds.link.checkWithin lenient (ds.link.budget value) (ds.names.idxOf name)
      (some value) = .error (.failed failure) := by
    rw [hw.checkWithin_eq_validate hslot value (ds.link.enough_le_budget value), hfailed]
    rfl
  obtain ⟨culprit, hsteps, hpath, hvalue, hmisfit⟩ := hw.checkWithin_blames hslot hcheck
  exact ⟨culprit, failure.problem.text, hsteps, hmisfit, by rw [Failure.message, hpath, hvalue]⟩

/-- A tree whose second child has a text where a number is required. -/
def Json.brokenTree : Json :=
  .object [("children", .array [.object [("value", .number .zero)],
    .object [("value", .string "1")]]), ("value", .number .zero)]

/-- The message about the broken tree is about the number of a tree, without the way to the child:
the path starts anew at the reference to `Tree`. -/
theorem Binding.brokenTree_blamed :
    Registry.compile .forest = .ok Definitions.forest.link ∧
      Definitions.forest.get? "Tree" = some Definition.tree.shape ∧
      (Definitions.forest.binding 0 .tree).validate false .brokenTree =
        .error ⟨["Tree", "value"], .notNumber, some (.string "1")⟩ ∧
      ∃ culprit text,
        ReflTransGen (Blames .forest false)
          ⟨Definition.tree.shape, some .brokenTree, ["Tree"]⟩ culprit ∧
        Misfit false culprit.shape culprit.value text ∧
        "Tree.value is not a number:\n\"1\"" =
          String.ofList ((".".intercalate culprit.path).toList ++
            ' ' :: text ++ ':' :: '\n' :: Failure.valueText culprit.value) := by
  have hr : Registry.compile .forest = .ok Definitions.forest.link := rfl
  have hd : Definitions.forest.get? "Tree" = some Definition.tree.shape := rfl
  obtain ⟨b, hb, hblames⟩ := Binding.failure_blames hr hd
  have hbinding : Definitions.forest.link.get? "Tree" =
      some (Definitions.forest.binding 0 .tree) := rfl
  rw [hbinding] at hb
  cases hb
  have hfailed : (Definitions.forest.binding 0 .tree).validate false .brokenTree =
      .error ⟨["Tree", "value"], .notNumber, some (.string "1")⟩ := rfl
  have hmessage : (⟨["Tree", "value"], .notNumber, some (.string "1")⟩ : Failure).message =
      "Tree.value is not a number:\n\"1\"" := rfl
  have hfound := hblames false _ _ hfailed
  rw [hmessage] at hfound
  exact ⟨hr, hd, hfailed, hfound⟩

end JsonShape
