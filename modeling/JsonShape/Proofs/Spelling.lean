import JsonShape.Shape.Writer
import JsonShape.Proofs.Fields
import JsonShape.Proofs.Shapes

/-!
# Proofs: how shapes are spelled

The documents that spell a shape, by rules that follow the shape. Every shape, and every property,
is spelled by an object or by an array; an object may have further keys, and an array may not have
further items. What the fields of a kind have to say is the same in both forms, so it is said once
(`Dialect.SpellsFields`), and only the way in which the fields are found differs.

What is written for a shape is one of the documents that spell it, in either dialect.
-/

namespace JsonShape

open Json (valuesOf)

/-! ## The rules -/

namespace Dialect

/-- The keys of the fields of a kind. -/
def fieldsOf (d : Dialect) : Kind → List String
  | .alias => ["name"]
  | .array => [d.elementField]
  | .literal => ["value"]
  | .object => ["properties"]
  | .union => ["members"]
  | _ => []

/-- A tag names a kind by its word, and where tags may be `numbered` also by its number. -/
inductive Names (d : Dialect) (numbered : Bool) : Json → Kind → Prop where
  | word (kind : Kind) : Names d numbered (.string (d.word kind)) kind
  | number {n : Fin Number.naturalEnd} {kind : Kind} (h : numbered = true)
      (hn : Kind.all[n.val]? = some kind) : Names d numbered (.number (.natural n)) kind

/-- What is said of a property being required; if nothing is said about it, it is. -/
inductive SpellsRequired (d : Dialect) : List Json → Bool → Prop where
  | stated (required : Bool) : SpellsRequired d [.bool required] required
  | unstated (h : d.requiredFirst = false) : SpellsRequired d [] true

/-- The items after the name in an array that spells a property. -/
def inOrder (d : Dialect) (value : Json) (flag : List Json) : List Json :=
  if d.requiredFirst then flag ++ [value] else value :: flag

mutual

/-- A document spells a shape. `numbered` says whether the tags below the outermost one may be
numbers, and `here` whether the outermost one may. -/
inductive Spells (d : Dialect) (numbered : Bool) : (here : Bool) → Json → Shape → Prop where
  | object {here : Bool} {entries : List (String × Json)} {tag : Json} {values : List Json}
      {shape : Shape} (htag : valuesOf d.tag entries = [tag]) (hkind : d.Names here tag shape.kind)
      (hvalues : (d.fieldsOf shape.kind).map (valuesOf · entries) = values.map ([·]))
      (h : SpellsFields d numbered values shape) : Spells d numbered here (.object entries) shape
  | array {here : Bool} {tag : Json} {values : List Json} {shape : Shape}
      (hkind : d.Names here tag shape.kind) (h : SpellsFields d numbered values shape) :
      Spells d numbered here (.array (tag :: values)) shape

/-- The values of the fields of its kind spell a shape. -/
inductive SpellsFields (d : Dialect) (numbered : Bool) : List Json → Shape → Prop where
  | reference (name : String) : SpellsFields d numbered [.string name] (.alias name)
  | any : SpellsFields d numbered [] .any
  | array {value : Json} {element : Shape} (h : Spells d numbered numbered value element) :
      SpellsFields d numbered [value] (.array element)
  | boolean : SpellsFields d numbered [] .boolean
  | literal (literal : Literal) : SpellsFields d numbered [literal.toJson] (.literal literal)
  | null : SpellsFields d numbered [] .null
  | number : SpellsFields d numbered [] .number
  | object {items : List Json} {properties : List Property}
      (h : List.Forall₂ (SpellsProperty d numbered) items properties) :
      SpellsFields d numbered [.array items] (.object properties)
  | string : SpellsFields d numbered [] .string
  | undefined : SpellsFields d numbered [] .undefined
  | union {items : List Json} {members : List Shape}
      (h : List.Forall₂ (Spells d numbered numbered) items members) :
      SpellsFields d numbered [.array items] (.union members)

/-- A document spells a property. -/
inductive SpellsProperty (d : Dialect) (numbered : Bool) : Json → Property → Prop where
  | object {entries : List (String × Json)} {name : String} {value : Json} {shape : Shape}
      {required : Bool} (hname : valuesOf "name" entries = [.string name])
      (hvalue : valuesOf d.shapeField entries = [value]) (h : Spells d numbered numbered value shape)
      (hrequired : d.SpellsRequired (valuesOf "required" entries) required) :
      SpellsProperty d numbered (.object entries) ⟨name, shape, required⟩
  | array {name : String} {value : Json} {shape : Shape} {flag : List Json} {required : Bool}
      (h : Spells d numbered numbered value shape) (hrequired : d.SpellsRequired flag required) :
      SpellsProperty d numbered (.array (.string name :: d.inOrder value flag))
        ⟨name, shape, required⟩

end

/-! ## Words -/

/-- No word stands for two kinds, and no two keys of one object are the same. -/
structure Unambiguous (d : Dialect) : Prop where
  find?_word : ∀ kind, Kind.all.find? (fun other => d.word other = d.word kind) = some kind
  tag_not_mem : ∀ kind, d.tag ∉ d.fieldsOf kind
  shapeField_ne_name : d.shapeField ≠ "name"
  shapeField_ne_required : d.shapeField ≠ "required"

theorem unambiguous_definition : definition.Unambiguous where
  find?_word kind := by cases kind <;> rfl
  tag_not_mem kind := by cases kind <;> decide
  shapeField_ne_name := by decide
  shapeField_ne_required := by decide

theorem unambiguous_schema : schema.Unambiguous where
  find?_word kind := by cases kind <;> rfl
  tag_not_mem kind := by cases kind <;> decide
  shapeField_ne_name := by decide
  shapeField_ne_required := by decide

/-! ## Written shapes -/

section Written

variable {d : Dialect} {numbered here : Bool} {shape : Shape}

theorem spells_tag {kind : Kind} (hkind : kind = shape.kind) (hfields : d.fieldsOf kind = [])
    (h : d.SpellsFields numbered [] shape) :
    d.Spells numbered here (.object [(d.tag, .string (d.word kind))]) shape := by
  subst hkind
  refine .object Json.valuesOf_cons_self (.word _) ?_ h
  rw [hfields]
  rfl

theorem spells_field (hd : d.Unambiguous) {field : String} {value : Json}
    (hfields : d.fieldsOf shape.kind = [field]) (h : d.SpellsFields numbered [value] shape) :
    d.Spells numbered here (.object [(d.tag, .string (d.word shape.kind)), (field, value)])
      shape := by
  have hne : d.tag ≠ field := by
    intro heq
    refine hd.tag_not_mem shape.kind ?_
    rw [hfields, heq]
    exact List.mem_singleton_self field
  refine .object ?_ (.word _) ?_ h
  · rw [Json.valuesOf_cons_self, Json.valuesOf_cons_ne hne.symm]
    rfl
  · rw [hfields, List.map_singleton, Json.valuesOf_cons_ne hne, Json.valuesOf_cons_self]
    rfl

theorem spellsProperties_written (hd : d.Unambiguous) {properties : List Property}
    (h : ∀ p ∈ properties, d.Spells numbered numbered (p.shape.toJson d) p.shape) :
    List.Forall₂ (d.SpellsProperty numbered) (Shape.propertiesToJson d properties) properties := by
  induction properties with
  | nil => exact .nil
  | cons p rest ih =>
    obtain ⟨hp, hrest⟩ := List.forall_mem_cons.1 h
    obtain ⟨name, shape, required⟩ := p
    have hp : d.Spells numbered numbered (shape.toJson d) shape := hp
    have hname := hd.shapeField_ne_name
    have hrequired := hd.shapeField_ne_required
    refine .cons (.object ?_ ?_ hp ?_) (ih hrest)
    · split <;> simp [valuesOf, hname]
    · split <;> simp [valuesOf, hname.symm, hrequired.symm]
    · split <;> simp [valuesOf, hrequired] <;> exact .stated required

theorem spellsMembers_written {members : List Shape}
    (h : ∀ member ∈ members, d.Spells numbered numbered (member.toJson d) member) :
    List.Forall₂ (d.Spells numbered numbered) (Shape.membersToJson d members) members := by
  induction members with
  | nil => exact .nil
  | cons member rest ih =>
    obtain ⟨hmember, hrest⟩ := List.forall_mem_cons.1 h
    exact .cons hmember (ih hrest)

/-- What is written for a shape spells it. -/
theorem spells_toJson (hd : d.Unambiguous) (numbered here : Bool) (shape : Shape) :
    d.Spells numbered here (shape.toJson d) shape := by
  induction shape generalizing here with
  | reference name => exact spells_field hd rfl (.reference name)
  | array element ih => exact spells_field hd rfl (.array (ih numbered))
  | literal literal => exact spells_field hd rfl (.literal literal)
  | object properties ih =>
    have hproperties := spellsProperties_written hd fun p hp => ih p hp numbered
    exact spells_field hd rfl (.object hproperties)
  | union members ih =>
    have hmembers := spellsMembers_written fun member hm => ih member hm numbered
    exact spells_field hd rfl (.union hmembers)
  | _ =>
    refine spells_tag rfl rfl ?_
    constructor

end Written

end Dialect

end JsonShape
