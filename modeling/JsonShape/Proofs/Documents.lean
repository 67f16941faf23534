import JsonShape.Definitions.Basic
import JsonShape.Proofs.Reading

/-!
# Proofs: documents of definitions

The documents that spell definitions, by the same kind of rules as for shapes (`Dialect.Spells`),
and that reading a document as definitions succeeds with exactly what it spells.

The type of a definition has to be tagged by a word. Below it a tag may also be the number of a
kind, which is more than the words alone allow.
-/

namespace JsonShape

open Json (valuesOf)

/-! ## The rules -/

namespace Json

/-- A document spells a definition; `numbered` says whether tags inside its type may be numbers. -/
inductive SpellsDefinition (numbered : Bool) : Json → Definition → Prop where
  | object {entries : List (String × Json)} {name : String} {value : Json} {shape : Shape}
      (hname : valuesOf "name" entries = [.string name]) (hvalue : valuesOf "type" entries = [value])
      (h : Dialect.definition.Spells numbered false value shape) :
      SpellsDefinition numbered (.object entries) ⟨name, shape⟩
  | array {name : String} {value : Json} {shape : Shape}
      (h : Dialect.definition.Spells numbered false value shape) :
      SpellsDefinition numbered (.array [.string name, value]) ⟨name, shape⟩

/-- What is said of the version of the format. -/
inductive SpellsVersion : List Json → Option String → Prop where
  | absent : SpellsVersion [] none
  | null : SpellsVersion [.null] none
  | stated (version : String) : SpellsVersion [.string version] (some version)

/-- What is said of the named shapes. -/
inductive SpellsTypes (numbered : Bool) : List Json → List Definition → Prop where
  | absent : SpellsTypes numbered [] []
  | listed {items : List Json} {types : List Definition}
      (h : List.Forall₂ (SpellsDefinition numbered) items types) :
      SpellsTypes numbered [.array items] types

/-- A document spells definitions. In an array the version comes first and then the named shapes,
and the array may end before either. -/
inductive SpellsDefinitions (numbered : Bool) : Json → Definitions → Prop where
  | object {entries : List (String × Json)} {version : Option String} {types : List Definition}
      (hversion : SpellsVersion (valuesOf "format_version" entries) version)
      (htypes : SpellsTypes numbered (valuesOf "types" entries) types) :
      SpellsDefinitions numbered (.object entries) ⟨version, types⟩
  | array {items : List Json} {version : Option String} {types : List Definition}
      (hversion : SpellsVersion (items.take 1) version)
      (htypes : SpellsTypes numbered (items.drop 1) types) :
      SpellsDefinitions numbered (.array items) ⟨version, types⟩

end Json

/-! ## Reading a definition -/

namespace Definition

theorem keepsTwo_step :
    KeepsTwo Partial.mk step Node.string? (Shape.ofNode .definition true) where
  make_inj h := by
    cases h
    exact ⟨rfl, rfl⟩
  step_zero := by
    intro name shape node total
    rw [step, fresh_bind_iff, bind_eq_ok_iff]
    simp only [pure_eq_ok, Except.ok.injEq]
  step_one := by
    intro name shape node total
    rw [step, fresh_bind_iff, bind_eq_ok_iff]
    simp only [pure_eq_ok, Except.ok.injEq]
    intro h
    cases h

theorem complete_iff {isSequence : Bool} {known : Partial} {d : Definition} :
    complete isSequence known = .ok d ↔ known = ⟨some d.name, some d.shape⟩ := by
  obtain ⟨name, shape⟩ := known
  obtain ⟨name', shape'⟩ := d
  simp only [complete, bind_eq_ok_iff, required_eq_ok_iff, pure_eq_ok, Except.ok.injEq,
    Definition.mk.injEq, Partial.mk.injEq]
  constructor
  · rintro ⟨_, rfl, _, rfl, rfl, rfl⟩
    exact ⟨rfl, rfl⟩
  · rintro ⟨rfl, rfl⟩
    exact ⟨name', rfl, shape', rfl, rfl, rfl⟩

/-- A document is read as the definition it spells. -/
theorem ofNode_iff_spells (json : Json) (d : Definition) :
    ofNode (.ofJson interest json) = .ok d ↔ json.SpellsDefinition true d := by
  have hshape : ∀ value shape, Shape.ofNode .definition true (.ofJson .whole value) = .ok shape ↔
      Dialect.definition.Spells true false value shape :=
    fun value _ => Shape.ofNode_iff_spells Dialect.unambiguous_definition value
  obtain ⟨name, shape⟩ := d
  cases json with
  | object entries =>
    rw [Node.ofJson, ofNode, bind_eq_ok_iff]
    simp only [complete_iff, exists_eq_right]
    rw [interest, fields, keepsTwo_step.foldEntries_iff (by decide)]
    simp only [collects_some, Node.string?_ofJson, hshape]
    constructor
    · rintro ⟨⟨_, hname, rfl⟩, value, hvalue, hspells⟩
      exact .object hname hvalue hspells
    · intro hspells
      cases hspells with
      | object hname hvalue hspells => exact ⟨⟨_, hname, rfl⟩, _, hvalue, hspells⟩
  | array items =>
    rw [Node.ofJson, ofNode, bind_eq_ok_iff]
    simp only [complete_iff, exists_eq_right]
    show Node.foldItems step (.mk none none) 0
      (Node.ofItems items.length (.fixed [.whole, .whole]) items) = .ok (.mk _ _) ↔ _
    rw [keepsTwo_step.foldItems_iff]
    simp only [collects_some, Node.string?_ofJson, hshape]
    constructor
    · rintro ⟨⟨_, hname, rfl⟩, value, hvalue, hspells⟩
      rw [← List.take_append_drop 1 items, hname, hvalue]
      exact .array hspells
    · intro hspells
      cases hspells with
      | array hspells => exact ⟨⟨_, rfl, rfl⟩, _, rfl, hspells⟩
  | _ =>
    constructor
    · intro h
      cases h
    · intro h
      cases h

end Definition

/-! ## Reading definitions -/

namespace Definitions

theorem keepsTwo_step :
    KeepsTwo Partial.mk step Node.optionalString? (Node.listOf Definition.ofNode) where
  make_inj h := by
    cases h
    exact ⟨rfl, rfl⟩
  step_zero := by
    intro version types node total
    rw [step, fresh_bind_iff, bind_eq_ok_iff]
    simp only [pure_eq_ok, Except.ok.injEq]
  step_one := by
    intro version types node total
    rw [step, fresh_bind_iff, bind_eq_ok_iff]
    · simp only [pure_eq_ok, Except.ok.injEq]
    · intro h
      cases h

theorem optionalString?_iff {value : Json} {part : Interest} {version : Option String} :
    (Node.ofJson part value).optionalString? = .ok version ↔
      Json.SpellsVersion [value] version := by
  constructor
  · intro h
    cases value with
    | null =>
      cases h
      exact .null
    | string s =>
      cases h
      exact .stated s
    | _ => cases h
  · intro h
    cases h <;> rfl

theorem listOf_iff {value : Json} {types : List Definition} :
    (Node.ofJson (.listOf Definition.interest) value).listOf Definition.ofNode = .ok types ↔
      Json.SpellsTypes true [value] types := by
  cases value with
  | array items =>
    rw [Node.ofJson, Interest.supply, Node.ofItems_each, Node.listOf,
      mapM_ofJson_iff fun d _ item => Definition.ofNode_iff_spells item d]
    constructor
    · intro h
      exact .listed h
    · intro h
      cases h with
      | listed h => exact h
  | _ =>
    constructor
    · intro h
      cases h
    · intro h
      cases h

/-- What is left unsaid about the version means that there is none. -/
theorem spellsVersion_iff {values : List Json} {version : Option String} :
    Json.SpellsVersion values version ↔ ∃ known,
      Collects (fun value => (Node.ofJson .whole value).optionalString?) none values known ∧
        known.getD none = version := by
  constructor
  · intro h
    cases h with
    | absent => exact ⟨none, .kept none, rfl⟩
    | null => exact ⟨some none, .read rfl, rfl⟩
    | stated v => exact ⟨some (some v), .read rfl, rfl⟩
  · rintro ⟨known, hcollects, rfl⟩
    cases hcollects with
    | kept => exact .absent
    | read hvalue => exact optionalString?_iff.1 hvalue

/-- What is left unsaid about the named shapes means that there are none. -/
theorem spellsTypes_iff {values : List Json} {types : List Definition} :
    Json.SpellsTypes true values types ↔ ∃ known,
      Collects (fun value =>
        (Node.ofJson (.listOf Definition.interest) value).listOf Definition.ofNode) none values
        known ∧ known.getD [] = types := by
  constructor
  · intro h
    cases h with
    | absent => exact ⟨none, .kept none, rfl⟩
    | listed h => exact ⟨some types, .read (listOf_iff.2 (.listed h)), rfl⟩
  · rintro ⟨known, hcollects, rfl⟩
    cases hcollects with
    | kept => exact .absent
    | read hvalue => exact listOf_iff.1 hvalue

theorem ofNode_iff_spells (json : Json) (definitions : Definitions) :
    ofNode (.ofJson interest json) = .ok definitions ↔
      json.SpellsDefinitions true definitions := by
  obtain ⟨version, types⟩ := definitions
  cases json with
  | object entries =>
    rw [Node.ofJson, ofNode, bind_eq_ok_iff]
    simp only [pure_eq_ok, Except.ok.injEq, complete, Definitions.mk.injEq]
    constructor
    · rintro ⟨⟨version?, types?⟩, hfold, hversion, htypes⟩
      rw [interest, fields, keepsTwo_step.foldEntries_iff (by decide)] at hfold
      exact .object (spellsVersion_iff.2 ⟨version?, hfold.1, hversion⟩)
        (spellsTypes_iff.2 ⟨types?, hfold.2, htypes⟩)
    · intro hspells
      cases hspells with
      | object hversion htypes =>
        obtain ⟨version?, hcollects, hversion⟩ := spellsVersion_iff.1 hversion
        obtain ⟨types?, hcollects', htypes⟩ := spellsTypes_iff.1 htypes
        refine ⟨⟨version?, types?⟩, ?_, hversion, htypes⟩
        exact (keepsTwo_step.foldEntries_iff (by decide)).2 ⟨hcollects, hcollects'⟩
  | array items =>
    rw [Node.ofJson, ofNode, bind_eq_ok_iff]
    simp only [pure_eq_ok, Except.ok.injEq, complete, Definitions.mk.injEq]
    constructor
    · rintro ⟨⟨version?, types?⟩, hfold, hversion, htypes⟩
      have hfold := keepsTwo_step.foldItems_iff.1 hfold
      exact .array (spellsVersion_iff.2 ⟨version?, hfold.1, hversion⟩)
        (spellsTypes_iff.2 ⟨types?, hfold.2, htypes⟩)
    · intro hspells
      cases hspells with
      | array hversion htypes =>
        obtain ⟨version?, hcollects, hversion⟩ := spellsVersion_iff.1 hversion
        obtain ⟨types?, hcollects', htypes⟩ := spellsTypes_iff.1 htypes
        refine ⟨⟨version?, types?⟩, ?_, hversion, htypes⟩
        exact keepsTwo_step.foldItems_iff.2 ⟨hcollects, hcollects'⟩
  | _ =>
    constructor
    · intro h
      cases h
    · intro h
      cases h

/-- A document is read as definitions if and only if it spells them: the rules describe the reader
completely. -/
theorem ofJson_iff_spells (json : Json) (definitions : Definitions) :
    ofJson json = .ok definitions ↔ json.SpellsDefinitions true definitions :=
  ofNode_iff_spells json definitions

/-- Definitions in which the element of an array has a number for a tag. -/
def numberedElement : Json :=
  .object [("types", .array [.object [("name", .string "A"), ("type", .object
    [("kind", .string "array"), ("element", .object [("kind", .number (.natural ⟨1, by decide⟩))])])]])]

/-- The number of a kind is read as its word, so words are not the only tags. -/
theorem ofJson_numberedElement : ofJson numberedElement = .ok ⟨none, [⟨"A", .array .any⟩]⟩ ∧
    ¬numberedElement.SpellsDefinitions false ⟨none, [⟨"A", .array .any⟩]⟩ := by
  constructor
  · rfl
  · intro h
    obtain ⟨-, htypes⟩ := h
    cases htypes with
    | listed hlisted =>
      cases hlisted with
      | cons hdefinition _ =>
        cases hdefinition with
        | object _ hvalue h =>
          cases hvalue
          cases h with
          | object htag _ hvalues hfields =>
            cases hfields with
            | array h =>
              cases hvalues
              cases h with
              | object htag hkind _ _ =>
                cases htag
                cases hkind with
                | number hnumbered => cases hnumbered

end Definitions

end JsonShape
