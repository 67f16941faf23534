import JsonShape.Proofs.Independence

/-!
# Proofs: linked registries

Aliases are resolved to slots in three kinds of trees: in validators, in sanitizers, and in the
validators that sanitizers carry for the members of unions. Schemas keep the names. The slots are
handed out before there are any entries, and later they are used without looking whether there is an
entry. That this is safe is said here for every place of every tree, and so is where the slots lead.

A place is given by the steps that lead to it from the top. Shapes and what they are compiled to
have the same places, so one may go along the same way in all of them.
-/

namespace JsonShape

open Relation

/-! ## Places -/

/-- A step to a part of a shape, or of something that a shape is compiled to. -/
inductive Step where
  /-- To the element of an array. -/
  | element
  /-- To the value of the property that an object has at a place. -/
  | property (place : Nat)
  /-- To the member that a union has at a place. -/
  | member (place : Nat)

/-- The part of a shape after a step. -/
def Shape.part? : Shape → Step → Option Shape
  | .array element, .element => some element
  | .object properties, .property place => properties[place]?.map Property.shape
  | .union members, .member place => members[place]?
  | _, _ => none

/-- The part of a validator after a step. -/
def Validator.part? : Validator → Step → Option Validator
  | .array element, .element => some element
  | .object properties, .property place => properties[place]?.map PropertyValidator.validator
  | .union members, .member place => members[place]?
  | _, _ => none

/-- The part of a sanitizer after a step. -/
def Sanitizer.part? : Sanitizer → Step → Option Sanitizer
  | .array element, .element => some element
  | .object properties, .property place => properties[place]?.map PropertySanitizer.sanitizer
  | .union branches, .member place => branches[place]?.map Branch.sanitizer
  | _, _ => none

/-- The validator that a sanitizer tries for the member at a place. -/
def Sanitizer.trial? : Sanitizer → (place : Nat) → Option Validator
  | .union branches, place => branches[place]?.map Branch.validator
  | _, _ => none

/-- The part of a schema after a step. -/
def Schema.part? : Schema → Step → Option Schema
  | .array items, .element => some items
  | .object properties, .property place => properties[place]?.map SchemaProperty.schema
  | .union members, .member place => members[place]?
  | _, _ => none

/-- What stands in a shape at the end of a way. -/
def Shape.partAt? (shape : Shape) (way : List Step) : Option Shape :=
  way.foldlM Shape.part? shape

/-- What stands in a validator at the end of a way. -/
def Validator.partAt? (v : Validator) (way : List Step) : Option Validator :=
  way.foldlM Validator.part? v

/-- What stands in a sanitizer at the end of a way. -/
def Sanitizer.partAt? (s : Sanitizer) (way : List Step) : Option Sanitizer :=
  way.foldlM Sanitizer.part? s

/-- What stands in a schema at the end of a way. -/
def Schema.partAt? (schema : Schema) (way : List Step) : Option Schema :=
  way.foldlM Schema.part? schema

/-- What stands at the end of a way in the validator that is tried, at the union which the sanitizer
has at the end of another way, for the member at a place. -/
def Sanitizer.trialAt? (s : Sanitizer) (way : List Step) (place : Nat) (rest : List Step) :
    Option Validator := do
  let inner ← s.partAt? way
  let trial ← inner.trial? place
  trial.partAt? rest

section Ways

variable {names : List String} {shape piece : Shape} {way : List Step}

/-- What keeps to every step keeps to every way. -/
theorem foldlM_part {α β : Type} {part? : α → Step → Option α} {part?' : β → Step → Option β}
    {f : α → β} (h : ∀ x step, part?' (f x) step = (part? x step).map f) (x : α)
    (way : List Step) : way.foldlM part?' (f x) = (way.foldlM part? x).map f := by
  induction way generalizing x with
  | nil => rfl
  | cons step rest ih =>
    rw [List.foldlM_cons, List.foldlM_cons, h]
    cases part? x step with
    | none => rfl
    | some y => exact ih y

theorem Shape.partAt?_cons (shape : Shape) (step : Step) (rest : List Step) :
    shape.partAt? (step :: rest) = (shape.part? step).bind fun inner => inner.partAt? rest :=
  List.foldlM_cons

theorem Shape.partAt?_append (shape : Shape) (way rest : List Step) :
    shape.partAt? (way ++ rest) = (shape.partAt? way).bind fun inner => inner.partAt? rest :=
  List.foldlM_append

theorem Validator.part?_ofShape (names : List String) (shape : Shape) (step : Step) :
    (ofShape names shape).part? step = (shape.part? step).map (ofShape names) := by
  cases shape <;> cases step <;>
    simp [ofShape, part?, Shape.part?, ofProperties_eq_map, ofMembers_eq_map, Function.comp_def]

theorem Sanitizer.part?_ofShape (names : List String) (shape : Shape) (step : Step) :
    (ofShape names shape).part? step = (shape.part? step).map (ofShape names) := by
  cases shape <;> cases step <;>
    simp [ofShape, part?, Shape.part?, ofProperties_eq_map, ofMembers_eq_map, Function.comp_def]

theorem Sanitizer.trial?_ofShape (names : List String) (shape : Shape) (place : Nat) :
    (ofShape names shape).trial? place =
      (shape.part? (.member place)).map (Validator.ofShape names) := by
  cases shape <;>
    simp [ofShape, trial?, Shape.part?, ofMembers_eq_map, Function.comp_def]

theorem Schema.ofProperties_eq_map (properties : List Property) :
    ofProperties properties = properties.map fun p => ⟨p.name, p.required, ofShape p.shape⟩ := by
  induction properties with
  | nil => rfl
  | cons p rest ih =>
    obtain ⟨name, shape, required⟩ := p
    rw [ofProperties, List.map_cons, ih]

theorem Schema.ofShapes_eq_map (shapes : List Shape) : ofShapes shapes = shapes.map ofShape := by
  induction shapes with
  | nil => rfl
  | cons shape rest ih => rw [ofShapes, List.map_cons, ih]

theorem Schema.part?_ofShape (shape : Shape) (step : Step) :
    (ofShape shape).part? step = (shape.part? step).map ofShape := by
  cases shape <;> cases step <;>
    simp [ofShape, part?, Shape.part?, ofProperties_eq_map, ofShapes_eq_map, Function.comp_def]

theorem Validator.partAt?_ofShape (names : List String) (shape : Shape) (way : List Step) :
    (ofShape names shape).partAt? way = (shape.partAt? way).map (ofShape names) :=
  foldlM_part (part?_ofShape names) shape way

theorem Sanitizer.partAt?_ofShape (names : List String) (shape : Shape) (way : List Step) :
    (ofShape names shape).partAt? way = (shape.partAt? way).map (ofShape names) :=
  foldlM_part (part?_ofShape names) shape way

theorem Schema.partAt?_ofShape (shape : Shape) (way : List Step) :
    (ofShape shape).partAt? way = (shape.partAt? way).map ofShape :=
  foldlM_part part?_ofShape shape way

/-- The validators that are tried for the members of unions come to the same places. -/
theorem Sanitizer.trialAt?_ofShape (names : List String) (shape : Shape) (way : List Step)
    (place : Nat) (rest : List Step) : (ofShape names shape).trialAt? way place rest =
      (shape.partAt? (way ++ .member place :: rest)).map (Validator.ofShape names) := by
  rw [trialAt?, partAt?_ofShape, Shape.partAt?_append]
  cases shape.partAt? way with
  | none => rfl
  | some inner =>
    -- a trial stands beside the sanitizer of its member, one step below the union
    show ((ofShape names inner).trial? place).bind _ = (inner.partAt? (.member place :: rest)).map _
    rw [trial?_ofShape, Shape.partAt?_cons]
    cases inner.part? (.member place) with
    | none => rfl
    | some member => exact Validator.partAt?_ofShape names member rest

theorem Shape.part_of_part? {step : Step} (h : shape.part? step = some piece) :
    piece.Part shape := by
  cases shape with
  | array element =>
    cases step with
    | element =>
      cases h
      exact (Part.whole _).element
    | property place => cases h
    | member place => cases h
  | object properties =>
    cases step with
    | element => cases h
    | property place =>
      obtain ⟨p, hp, rfl⟩ := Option.map_eq_some_iff.1 h
      exact (Part.whole _).property (List.mem_of_getElem? hp)
    | member place => cases h
  | union members =>
    cases step with
    | element => cases h
    | property place => cases h
    | member place => exact (Part.whole _).member (List.mem_of_getElem? h)
  | _ => cases h

/-- What stands at the end of a way is a part. -/
theorem Shape.part_of_partAt? (h : shape.partAt? way = some piece) : piece.Part shape := by
  induction way generalizing shape with
  | nil =>
    cases h
    exact .whole _
  | cons step rest ih =>
    rw [partAt?_cons] at h
    obtain ⟨inner, hinner, hrest⟩ := Option.bind_eq_some_iff.1 h
    exact (ih hrest).trans (part_of_part? hinner)

theorem Validator.ofShape_eq_alias_iff {slot : Nat} :
    ofShape names shape = .alias slot ↔ ∃ name, shape = .alias name ∧ names.idxOf name = slot := by
  cases shape <;> simp [ofShape]

theorem Sanitizer.ofShape_eq_alias_iff {slot : Nat} :
    ofShape names shape = .alias slot ↔ ∃ name, shape = .alias name ∧ names.idxOf name = slot := by
  cases shape <;> simp [ofShape]

theorem Schema.ofShape_eq_ref_iff {name : String} :
    ofShape shape = .ref name ↔ shape = .alias name := by
  cases shape <;> simp [ofShape]

/-- What only aliases are compiled to comes from an alias. -/
theorem map_eq_alias_iff {β : Type} {compiled : Shape → β} {target : β} {slot : Nat}
    (h : ∀ shape, compiled shape = target ↔ ∃ name, shape = .alias name ∧ names.idxOf name = slot)
    (found : Option Shape) : found.map compiled = some target ↔
      ∃ name, found = some (.alias name) ∧ names.idxOf name = slot := by
  constructor
  · intro hfound
    obtain ⟨shape, hshape, htarget⟩ := Option.map_eq_some_iff.1 hfound
    obtain ⟨name, rfl, hslot⟩ := (h shape).1 htarget
    exact ⟨name, hshape, hslot⟩
  · rintro ⟨name, rfl, hslot⟩
    exact congrArg some ((h (.alias name)).2 ⟨name, rfl, hslot⟩)

theorem Schema.partAt?_eq_ref_iff {name : String} :
    (ofShape shape).partAt? way = some (.ref name) ↔ shape.partAt? way = some (.alias name) := by
  rw [partAt?_ofShape, Option.map_eq_some_iff]
  constructor
  · rintro ⟨piece, hpiece, href⟩
    rw [hpiece, ofShape_eq_ref_iff.1 href]
  · exact fun halias => ⟨_, halias, rfl⟩

end Ways

/-! ## Slots -/

/-- At the end of a way a shape has an alias, and the slot is that of the entry with its name. -/
structure Registry.Points (r : Registry) (shape : Shape) (way : List Step) (slot : Nat) :
    Prop where
  /-- There is an entry in the slot. -/
  inRange : slot < r.entries.length
  /-- Its name is the one that the shape refers to. -/
  named : shape.partAt? way = some (.alias r.entries[slot].name)

/-- Every slot that is stored in an entry leads where it should, and every alias has its slot. -/
structure Entry.Linked (r : Registry) (entry : Entry) : Prop where
  /-- The slots in the validator are those of the aliases. -/
  validator : ∀ way slot,
    entry.validator.partAt? way = some (.alias slot) ↔ r.Points entry.shape way slot
  /-- The slots in the sanitizer are those of the aliases. -/
  sanitizer : ∀ way slot,
    entry.sanitizer.partAt? way = some (.alias slot) ↔ r.Points entry.shape way slot
  /-- The slots in the validators for members of unions, inside the sanitizer, are those of the
  aliases in these members. -/
  trial : ∀ way place rest slot, entry.sanitizer.trialAt? way place rest = some (.alias slot) ↔
    r.Points entry.shape (way ++ .member place :: rest) slot
  /-- The references in the schema are the aliases. -/
  schema : ∀ way name, entry.schema.partAt? way = some (.ref name) ↔
    entry.shape.partAt? way = some (.alias name)

/-- A binding refers to another one somewhere in its schema. -/
def Registry.Follows (r : Registry) (b b' : Binding) : Prop :=
  ∃ way name, b.schema.partAt? way = some (.ref name) ∧ r.get? name = some b'

/-- A registry that belongs to some definitions and has no loose ends. -/
structure Registry.Linked (ds : Definitions) (r : Registry) : Prop where
  /-- There is an entry for each definition, in the same place, with its name and its shape. -/
  entries : r.entries.map (fun entry => Definition.mk entry.name entry.shape) = ds.types
  /-- A name has a slot if it is that of a definition, and then the slot is its place. -/
  slots : ∀ name slot, r.slots.find? name = some slot ↔
    ∃ d, ds.types[slot]? = some d ∧ d.name = name
  /-- A name that has a slot is bound to the entry in it. -/
  bound : ∀ name slot, r.slots.find? name = some slot →
    ∃ entry, r.entries[slot]? = some entry ∧ entry.name = name ∧
      r.get? name = some ⟨r, slot, entry⟩
  /-- The slots in each entry lead to entries with the right names. -/
  linked : ∀ entry ∈ r.entries, entry.Linked r
  /-- Slots without an entry are never asked when a value is checked. -/
  checks : ∀ entry ∈ r.entries, ∀ enter enter' lenient path value,
    (∀ slot < r.entries.length, ∀ x, enter slot x = enter' slot x) →
      entry.validator.check enter lenient path value =
        entry.validator.check enter' lenient path value
  /-- Neither are they when a value is rebuilt. -/
  rebuilds : ∀ entry ∈ r.entries, ∀ enter enter' enterRebuild enterRebuild' lenient path value,
    (∀ slot < r.entries.length, ∀ x, enter slot x = enter' slot x) →
    (∀ slot < r.entries.length, ∀ x, enterRebuild slot x = enterRebuild' slot x) →
      entry.sanitizer.rebuild enter enterRebuild lenient path value =
        entry.sanitizer.rebuild enter' enterRebuild' lenient path value
  /-- However far references are followed from a binding, the next one can be followed too, and it
  leads to the binding of its name. -/
  follows : ∀ start name, r.get? name = some start →
    ∀ b, ReflTransGen r.Follows start b →
      ∀ way target, b.schema.partAt? way = some (.ref target) →
        ∃ next, r.get? target = some next ∧ next.name = target

namespace Definitions

variable {ds : Definitions} {d : Definition} {way : List Step} {slot : Nat}

theorem idxOf_lt_length_link {name : String} (h : name ∈ ds.names) :
    ds.names.idxOf name < ds.link.entries.length := by
  have hlt : ds.names.idxOf name < ds.names.length := List.idxOf_lt_length_iff.2 h
  rwa [names, List.length_map, ← length_link] at hlt

/-- Aliases in definitions that can be compiled have targets. -/
theorem mem_names_of_part (hw : ds.WellFormed) (hd : d ∈ ds.types) {name : String}
    (h : Shape.Part (.alias name) d.shape) : name ∈ ds.names :=
  (Shape.wellFormed_iff.1 (hw.shapes d hd)).1 name h

theorem idxOf_lt_of_part (hw : ds.WellFormed) (hd : d ∈ ds.types) {name : String}
    (h : Shape.Part (.alias name) d.shape) : ds.names.idxOf name < ds.link.entries.length :=
  idxOf_lt_length_link (mem_names_of_part hw hd h)

/-- The entry in the slot of a name has this name. -/
theorem points_link_iff (hw : ds.WellFormed) (hd : d ∈ ds.types) : ds.link.Points d.shape way slot ↔
    ∃ name, d.shape.partAt? way = some (.alias name) ∧ ds.names.idxOf name = slot := by
  have hnames : ∀ (h : slot < ds.link.entries.length), ds.names[slot]? =
      some ds.link.entries[slot].name := by
    intro h
    rw [← names_link, Registry.names, List.getElem?_map, List.getElem?_eq_getElem h]
    rfl
  constructor
  · rintro ⟨hslot, hnamed⟩
    -- names are distinct, so the entry with a name is in no other slot
    obtain ⟨hlt, hname⟩ := List.getElem?_eq_some_iff.1 (hnames hslot)
    refine ⟨_, hnamed, ?_⟩
    rw [← hname, hw.distinct.idxOf_getElem]
  · rintro ⟨name, halias, rfl⟩
    have hmem : name ∈ ds.names := mem_names_of_part hw hd (Shape.part_of_partAt? halias)
    have hlt : ds.names.idxOf name < ds.names.length := List.idxOf_lt_length_iff.2 hmem
    have hslot : ds.names.idxOf name < ds.link.entries.length := idxOf_lt_length_link hmem
    have hname := hnames hslot
    rw [List.getElem?_eq_getElem hlt, List.getElem_idxOf hlt, Option.some.injEq] at hname
    exact ⟨hslot, hname ▸ halias⟩

theorem linked_ofDefinition (hw : ds.WellFormed) (hd : d ∈ ds.types) :
    (Entry.ofDefinition ds.names d).Linked ds.link where
  validator way slot := by
    rw [Entry.ofDefinition, Validator.partAt?_ofShape, points_link_iff hw hd]
    exact map_eq_alias_iff (fun _ => Validator.ofShape_eq_alias_iff) _
  sanitizer way slot := by
    rw [Entry.ofDefinition, Sanitizer.partAt?_ofShape, points_link_iff hw hd]
    exact map_eq_alias_iff (fun _ => Sanitizer.ofShape_eq_alias_iff) _
  trial way place rest slot := by
    rw [Entry.ofDefinition, Sanitizer.trialAt?_ofShape, points_link_iff hw hd]
    exact map_eq_alias_iff (fun _ => Validator.ofShape_eq_alias_iff) _
  schema way name := Schema.partAt?_eq_ref_iff

/-- The entries that a check asks about are there. -/
theorem check_inRange (hw : ds.WellFormed) (hd : d ∈ ds.types) {lenient : Bool}
    {enter enter' : Nat → Option Json → Outcome Unit}
    (h : ∀ slot < ds.link.entries.length, ∀ x, enter slot x = enter' slot x)
    (path : List String) (value : Option Json) :
    (Validator.ofShape ds.names d.shape).check enter lenient path value =
      (Validator.ofShape ds.names d.shape).check enter' lenient path value :=
  Validator.check_renumbered (fun _ hpart => h _ (idxOf_lt_of_part hw hd hpart)) path value

/-- The entries that rebuilding asks about are there. -/
theorem rebuild_inRange (hw : ds.WellFormed) (hd : d ∈ ds.types) {lenient : Bool}
    {enter enter' : Nat → Option Json → Outcome Unit}
    {enterRebuild enterRebuild' : Nat → Json → Outcome Json}
    (h : ∀ slot < ds.link.entries.length, ∀ x, enter slot x = enter' slot x)
    (h' : ∀ slot < ds.link.entries.length, ∀ x, enterRebuild slot x = enterRebuild' slot x)
    (path : List String) (value : Json) :
    (Sanitizer.ofShape ds.names d.shape).rebuild enter enterRebuild lenient path value =
      (Sanitizer.ofShape ds.names d.shape).rebuild enter' enterRebuild' lenient path value :=
  Sanitizer.rebuild_renumbered (fun _ hpart => h _ (idxOf_lt_of_part hw hd hpart))
    (fun _ hpart => h' _ (idxOf_lt_of_part hw hd hpart)) path value

/-- The slot map of a registry has the names of the definitions, with their places. -/
theorem find?_slots_link_iff (hw : ds.WellFormed) {name : String} :
    ds.link.slots.find? name = some slot ↔ ∃ d, ds.types[slot]? = some d ∧ d.name = name := by
  constructor
  · intro h
    have hfound : (ds.types.map Definition.name)[slot]? = some name :=
      Slots.getElem?_of_find?_ofNames h
    rw [List.getElem?_map] at hfound
    exact Option.map_eq_some_iff.1 hfound
  · rintro ⟨d, hd, rfl⟩
    exact find?_slots_link hw.distinct hd

/-- A reference somewhere in the schema of a binding leads to the binding of its name. -/
theorem exists_next (hw : ds.WellFormed) {name target : String} {b : Binding}
    (hb : ds.link.get? name = some b) (href : b.schema.partAt? way = some (.ref target)) :
    ∃ next, ds.link.get? target = some next ∧ next.name = target := by
  obtain ⟨slot, d, hd, -, rfl⟩ := exists_of_get?_link hb
  have halias : d.shape.partAt? way = some (.alias target) := Schema.partAt?_eq_ref_iff.1 href
  have hmem : target ∈ ds.names :=
    mem_names_of_part hw (List.mem_of_getElem? hd) (Shape.part_of_partAt? halias)
  obtain ⟨shape, hshape⟩ := exists_of_mem_names hw.distinct hmem
  exact ⟨_, get?_link hw.distinct hshape, rfl⟩

/-- Following references leads from bindings to bindings. -/
theorem exists_get?_of_follows {name : String} {start b : Binding}
    (hstart : ds.link.get? name = some start) (h : ReflTransGen ds.link.Follows start b) :
    ∃ name, ds.link.get? name = some b := by
  cases h with
  | refl => exact ⟨name, hstart⟩
  | tail _ hlast =>
    obtain ⟨_, target, -, hb⟩ := hlast
    exact ⟨target, hb⟩

end Definitions

/-- In a compiled registry every name has its slot and every alias has the slot of the entry that it
names, wherever it stands. So no check and no rebuilding asks for an entry that is not there, and
references in schemas can be followed without end. -/
theorem Registry.compile_linked {ds : Definitions} {r : Registry} (hr : compile ds = .ok r) :
    r.Linked ds := by
  obtain ⟨hw, rfl⟩ := compile_eq_ok hr
  have hentries : ∀ entry ∈ ds.link.entries,
      ∃ d ∈ ds.types, Entry.ofDefinition ds.names d = entry := fun _ => List.mem_map.1
  constructor
  case entries =>
    rw [Definitions.link, List.map_map]
    exact List.map_id ds.types
  case slots => exact fun name slot => Definitions.find?_slots_link_iff hw
  case bound =>
    intro name slot hslot
    obtain ⟨d, hd, rfl⟩ := (Definitions.find?_slots_link_iff hw).1 hslot
    have hentry : ds.link.entries[slot]? = some (.ofDefinition ds.names d) := by
      rw [Definitions.entries_link, hd, Option.map_some]
    exact ⟨_, hentry, rfl, Definitions.get?_link hw.distinct hd⟩
  case linked =>
    intro entry hmem
    obtain ⟨d, hd, rfl⟩ := hentries entry hmem
    exact Definitions.linked_ofDefinition hw hd
  case checks =>
    intro entry hmem enter enter' lenient path value h
    obtain ⟨d, hd, rfl⟩ := hentries entry hmem
    exact Definitions.check_inRange hw hd h path value
  case rebuilds =>
    intro entry hmem enter enter' enterRebuild enterRebuild' lenient path value h h'
    obtain ⟨d, hd, rfl⟩ := hentries entry hmem
    exact Definitions.rebuild_inRange hw hd h h' path value
  case follows =>
    intro start name hstart b hb way target href
    obtain ⟨other, hother⟩ := Definitions.exists_get?_of_follows hstart hb
    exact Definitions.exists_next hw hother href

/-- The slots of the forest in a validator and in a member of a union, and a way along references
that comes back to where it began. -/
theorem Registry.forest_linked :
    compile .forest = .ok Definitions.forest.link ∧
    Definitions.forest.link.Points Definition.tree.shape [.property 1] 1 ∧
    Definitions.forest.link.Points Definition.loose.shape [.member 1] 2 ∧
    ∃ tree forest, Definitions.forest.link.get? "Tree" = some tree ∧
      Definitions.forest.link.Follows tree forest ∧
      Definitions.forest.link.Follows forest tree ∧ tree.name = "Tree" := by
  have hr : compile .forest = .ok Definitions.forest.link := rfl
  have hlinked := compile_linked hr
  have htree : (Entry.ofDefinition Definitions.forest.names .tree).Linked Definitions.forest.link :=
    hlinked.linked _ List.mem_cons_self
  have hloose :
      (Entry.ofDefinition Definitions.forest.names .loose).Linked Definitions.forest.link :=
    hlinked.linked _ (List.mem_of_getElem? (i := 2) rfl)
  have hstart : Definitions.forest.link.get? "Tree" =
      some (Definitions.forest.binding 0 .tree) := rfl
  have hthere : Definitions.forest.link.Follows (Definitions.forest.binding 0 .tree)
      (Definitions.forest.binding 1 .forest) := ⟨[.property 1], "Forest", rfl, rfl⟩
  obtain ⟨tree, htarget, hname⟩ :=
    hlinked.follows _ _ hstart _ (.single hthere) [.element] "Tree" rfl
  obtain rfl : Definitions.forest.binding 0 .tree = tree :=
    Option.some.inj (hstart.symm.trans htarget)
  refine ⟨hr, (htree.validator _ _).1 rfl, (hloose.trial [] 1 [] 2).1 rfl, ?_⟩
  exact ⟨_, _, hstart, hthere, ⟨[.element], "Tree", rfl, htarget⟩, hname⟩

end JsonShape
