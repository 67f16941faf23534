import Mathlib.Data.List.Basic
import JsonShape.Proofs.Search
import JsonShape.Proofs.Shapes
import JsonShape.Proofs.Slots

/-!
# Proofs: compilation

Compiling can only fail, it makes no choices: what it makes of well-formed definitions is a function
of them. `Definitions.link` is that function. All later statements about compiled definitions are
about `link`, and about the validators and sanitizers that shapes have there.
-/

namespace JsonShape

/-! ## What shapes are compiled to -/

mutual

/-- The validator of a shape whose aliases all have slots. -/
def Validator.ofShape (names : List String) : Shape → Validator
  | .alias name => .alias (names.idxOf name)
  | .any => .any
  | .array element => .array (ofShape names element)
  | .boolean => .boolean
  | .literal value => .literal value
  | .null => .null
  | .number => .number
  | .object properties => .object (ofProperties names properties)
  | .string => .string
  | .undefined => .undefined
  | .union members => .union (ofMembers names members)

/-- The validators of properties. -/
def Validator.ofProperties (names : List String) : List Property → List PropertyValidator
  | [] => []
  | ⟨name, shape, required⟩ :: rest =>
    ⟨name, required, ofShape names shape⟩ :: ofProperties names rest

/-- The validators of union members. -/
def Validator.ofMembers (names : List String) : List Shape → List Validator
  | [] => []
  | member :: rest => ofShape names member :: ofMembers names rest

end

mutual

/-- The sanitizer of a shape whose aliases all have slots. -/
def Sanitizer.ofShape (names : List String) : Shape → Sanitizer
  | .alias name => .alias (names.idxOf name)
  | .array element => .array (ofShape names element)
  | .object properties => .object (ofProperties names properties)
  | .union members => .union (ofMembers names members)
  | .any | .boolean | .literal _ | .null | .number | .string | .undefined => .keep

/-- The sanitizers of properties. -/
def Sanitizer.ofProperties (names : List String) : List Property → List PropertySanitizer
  | [] => []
  | ⟨name, shape, _⟩ :: rest => ⟨name, ofShape names shape⟩ :: ofProperties names rest

/-- The branches of union members. -/
def Sanitizer.ofMembers (names : List String) : List Shape → List Branch
  | [] => []
  | member :: rest => ⟨Validator.ofShape names member, ofShape names member⟩ :: ofMembers names rest

end

/-- Members and properties are compiled one by one. -/
theorem Validator.ofProperties_eq_map (names : List String) (properties : List Property) :
    ofProperties names properties =
      properties.map fun p => ⟨p.name, p.required, ofShape names p.shape⟩ := by
  induction properties with
  | nil => rfl
  | cons p rest ih =>
    obtain ⟨name, shape, required⟩ := p
    rw [ofProperties, List.map_cons, ih]

theorem Sanitizer.ofProperties_eq_map (names : List String) (properties : List Property) :
    ofProperties names properties = properties.map fun p => ⟨p.name, ofShape names p.shape⟩ := by
  induction properties with
  | nil => rfl
  | cons p rest ih =>
    obtain ⟨name, shape, required⟩ := p
    rw [ofProperties, List.map_cons, ih]

theorem Validator.ofMembers_eq_map (names : List String) (members : List Shape) :
    ofMembers names members = members.map (ofShape names) := by
  induction members with
  | nil => rfl
  | cons member rest ih => rw [ofMembers, List.map_cons, ih]

theorem Sanitizer.ofMembers_eq_map (names : List String) (members : List Shape) :
    ofMembers names members =
      members.map fun member => ⟨Validator.ofShape names member, ofShape names member⟩ := by
  induction members with
  | nil => rfl
  | cons member rest ih => rw [ofMembers, List.map_cons, ih]

/-- The names of compiled properties are those of the properties. -/
theorem Validator.map_name_ofProperties (names : List String) (properties : List Property) :
    (ofProperties names properties).map PropertyValidator.name = properties.map Property.name := by
  rw [ofProperties_eq_map, List.map_map]
  rfl

namespace Validator

variable {slots : Slots} {names : List String} {owner : String}

theorem compileProperties_eq_ok {properties : List Property} {seen : List String}
    {compiled : List PropertyValidator}
    (ih : ∀ p ∈ properties, ∀ v, compile slots owner p.shape = .ok v →
      p.shape.WellFormed names ∧ v = ofShape names p.shape)
    (h : compileProperties slots owner seen properties = .ok compiled) :
    (∀ p ∈ properties, p.name ∉ seen) ∧ (properties.map Property.name).Nodup ∧
      (∀ p ∈ properties, p.shape.WellFormed names) ∧ compiled = ofProperties names properties := by
  induction properties generalizing seen compiled with
  | nil =>
    cases h
    exact ⟨by simp, List.nodup_nil, by simp, rfl⟩
  | cons p rest ihrest =>
    obtain ⟨name, shape, required⟩ := p
    rw [compileProperties] at h
    split at h
    · cases h
    · next hseen =>
      obtain ⟨validator, hv, h⟩ := exists_of_bind_eq_ok h
      obtain ⟨others, ho, h⟩ := exists_of_bind_eq_ok h
      cases h
      obtain ⟨hw, rfl⟩ := ih _ List.mem_cons_self _ hv
      obtain ⟨hnot, hd, hws, rfl⟩ := ihrest (fun p hp => ih p (List.mem_cons_of_mem _ hp)) ho
      refine ⟨List.forall_mem_cons.2 ⟨hseen, fun p hp hm => hnot p hp (List.mem_cons_of_mem _ hm)⟩,
        List.nodup_cons.2 ⟨fun hm => ?_, hd⟩, List.forall_mem_cons.2 ⟨hw, hws⟩, rfl⟩
      obtain ⟨other, hmem, hname⟩ := List.mem_map.1 hm
      exact hnot other hmem (hname ▸ List.mem_cons_self)

theorem compileMembers_eq_ok {members : List Shape} {compiled : List Validator}
    (ih : ∀ member ∈ members, ∀ v, compile slots owner member = .ok v →
      member.WellFormed names ∧ v = ofShape names member)
    (h : compileMembers slots owner members = .ok compiled) :
    (∀ member ∈ members, member.WellFormed names) ∧ compiled = ofMembers names members := by
  induction members generalizing compiled with
  | nil =>
    cases h
    exact ⟨by simp, rfl⟩
  | cons member rest ihrest =>
    rw [compileMembers] at h
    obtain ⟨validator, hv, h⟩ := exists_of_bind_eq_ok h
    obtain ⟨others, ho, h⟩ := exists_of_bind_eq_ok h
    cases h
    obtain ⟨hw, rfl⟩ := ih _ List.mem_cons_self _ hv
    obtain ⟨hws, rfl⟩ := ihrest (fun m hm => ih m (List.mem_cons_of_mem _ hm)) ho
    exact ⟨List.forall_mem_cons.2 ⟨hw, hws⟩, rfl⟩

/-- Only well-formed shapes are compiled to validators. -/
theorem compile_eq_ok (hslots : slots.Places names) {shape : Shape} {v : Validator}
    (h : compile slots owner shape = .ok v) :
    shape.WellFormed names ∧ v = ofShape names shape := by
  induction shape generalizing v with
  | reference name =>
    rw [compile] at h
    obtain ⟨slot, hslot, h⟩ := exists_of_bind_eq_ok h
    cases h
    obtain ⟨hm, rfl⟩ := hslots.resolve_eq_ok hslot
    exact ⟨.reference hm, rfl⟩
  | array element ih =>
    rw [compile] at h
    obtain ⟨inner, hi, h⟩ := exists_of_bind_eq_ok h
    cases h
    obtain ⟨hw, rfl⟩ := ih hi
    exact ⟨.array hw, rfl⟩
  | object properties ih =>
    rw [compile] at h
    obtain ⟨compiled, hc, h⟩ := exists_of_bind_eq_ok h
    cases h
    obtain ⟨-, hd, hw, rfl⟩ := compileProperties_eq_ok (fun p hp _ => ih p hp) hc
    exact ⟨.object hd hw, rfl⟩
  | union members ih =>
    rw [compile] at h
    obtain ⟨compiled, hc, h⟩ := exists_of_bind_eq_ok h
    cases h
    obtain ⟨hw, rfl⟩ := compileMembers_eq_ok (fun m hm _ => ih m hm) hc
    exact ⟨.union hw, rfl⟩
  | _ =>
    cases h
    exact ⟨by constructor, rfl⟩

end Validator

namespace Sanitizer

variable {slots : Slots} {names : List String} {owner : String}

theorem compileProperties_eq_ok {properties : List Property} {compiled : List PropertySanitizer}
    (ih : ∀ p ∈ properties, ∀ s, compile slots owner p.shape = .ok s → s = ofShape names p.shape)
    (h : compileProperties slots owner properties = .ok compiled) :
    compiled = ofProperties names properties := by
  induction properties generalizing compiled with
  | nil =>
    cases h
    rfl
  | cons p rest ihrest =>
    obtain ⟨name, shape, required⟩ := p
    rw [compileProperties] at h
    obtain ⟨sanitizer, hs, h⟩ := exists_of_bind_eq_ok h
    obtain ⟨others, ho, h⟩ := exists_of_bind_eq_ok h
    cases h
    rw [ih _ List.mem_cons_self _ hs, ihrest (fun p hp => ih p (List.mem_cons_of_mem _ hp)) ho]
    rfl

theorem compileMembers_eq_ok (hslots : slots.Places names) {members : List Shape}
    {compiled : List Branch}
    (ih : ∀ member ∈ members, ∀ s, compile slots owner member = .ok s → s = ofShape names member)
    (h : compileMembers slots owner members = .ok compiled) :
    compiled = ofMembers names members := by
  induction members generalizing compiled with
  | nil =>
    cases h
    rfl
  | cons member rest ihrest =>
    rw [compileMembers] at h
    obtain ⟨validator, hv, h⟩ := exists_of_bind_eq_ok h
    obtain ⟨sanitizer, hs, h⟩ := exists_of_bind_eq_ok h
    obtain ⟨others, ho, h⟩ := exists_of_bind_eq_ok h
    cases h
    rw [(Validator.compile_eq_ok hslots hv).2, ih _ List.mem_cons_self _ hs,
      ihrest (fun m hm => ih m (List.mem_cons_of_mem _ hm)) ho]
    rfl

/-- The sanitizer of a shape resolves its aliases to the same slots as the validator. -/
theorem compile_eq_ok (hslots : slots.Places names) {shape : Shape} {s : Sanitizer}
    (h : compile slots owner shape = .ok s) :
    s = ofShape names shape := by
  induction shape generalizing s with
  | reference name =>
    rw [compile] at h
    obtain ⟨slot, hslot, h⟩ := exists_of_bind_eq_ok h
    cases h
    rw [(hslots.resolve_eq_ok hslot).2]
    rfl
  | array element ih =>
    rw [compile] at h
    obtain ⟨inner, hi, h⟩ := exists_of_bind_eq_ok h
    cases h
    rw [ih hi]
    rfl
  | object properties ih =>
    rw [compile] at h
    obtain ⟨compiled, hc, h⟩ := exists_of_bind_eq_ok h
    cases h
    rw [compileProperties_eq_ok (fun p hp _ => ih p hp) hc]
    rfl
  | union members ih =>
    rw [compile] at h
    obtain ⟨compiled, hc, h⟩ := exists_of_bind_eq_ok h
    cases h
    rw [compileMembers_eq_ok hslots (fun m hm _ => ih m hm) hc]
    rfl
  | _ =>
    cases h
    rfl

end Sanitizer

/-! ## What definitions are compiled to -/

/-- What a definition is compiled to. -/
def Entry.ofDefinition (names : List String) (d : Definition) : Entry :=
  ⟨d.name, d.shape, .ofShape d.shape, .ofShape d.shape, .ofShape names d.shape,
    .ofShape names d.shape⟩

/-- The registry of well-formed definitions. -/
def Definitions.link (ds : Definitions) : Registry :=
  ⟨ds.types.map (Entry.ofDefinition ds.names), .ofNames ds.names⟩

/-- Definitions that can be compiled. -/
structure Definitions.WellFormed (ds : Definitions) : Prop where
  /-- Every name has a character that is not white space. -/
  named : ∀ name ∈ ds.names, Text.allBlank name.toList = false
  /-- No two definitions share a name. -/
  distinct : ds.names.Nodup
  /-- Aliases have targets, and objects do not repeat properties. -/
  shapes : ∀ d ∈ ds.types, d.shape.WellFormed ds.names
  /-- The search for a circle of references ends without one. -/
  acyclic : ds.link.unguardedCycle? = none

theorem Entry.compile_eq_ok {slots : Slots} {names : List String} (hslots : slots.Places names)
    {d : Definition} {entry : Entry} (h : Entry.compile slots d = .ok entry) :
    d.shape.WellFormed names ∧ entry = Entry.ofDefinition names d := by
  obtain ⟨validator, hv, h⟩ := exists_of_bind_eq_ok h
  obtain ⟨sanitizer, hs, h⟩ := exists_of_bind_eq_ok h
  cases h
  obtain ⟨hw, rfl⟩ := Validator.compile_eq_ok hslots hv
  rw [Sanitizer.compile_eq_ok hslots hs]
  exact ⟨hw, rfl⟩

/-- Where every definition is compiled, the shapes are well formed and the entries are those of
`link`. -/
theorem Definitions.link_of_mapM_eq_ok {ds : Definitions} (hd : ds.names.Nodup)
    {entries : List Entry}
    (h : ds.types.mapM (Entry.compile (.ofNames ds.names)) = .ok entries) :
    (∀ d ∈ ds.types, d.shape.WellFormed ds.names) ∧
      (⟨entries, .ofNames ds.names⟩ : Registry) = ds.link := by
  have hpointwise := (forall₂_of_mapM_eq_ok h).imp fun _ _ =>
    Entry.compile_eq_ok (Slots.places_ofNames hd)
  obtain ⟨hshapes, heq⟩ := (List.forall₂_and_left _ _).1 hpointwise
  have hmap := List.forall₂_map_left_iff.2 (heq.imp fun _ _ => Eq.symm)
  rw [List.forall₂_eq_eq_eq] at hmap
  exact ⟨hshapes, by rw [Definitions.link, hmap]⟩

/-- Only well-formed definitions are compiled, and `link` is what they are compiled to. -/
theorem Registry.compile_eq_ok {ds : Definitions} {r : Registry} (h : Registry.compile ds = .ok r) :
    ds.WellFormed ∧ r = ds.link := by
  rw [Registry.compile] at h
  obtain ⟨slots, hslots, h⟩ := exists_of_bind_eq_ok h
  obtain ⟨hnamed, hdistinct, rfl⟩ := Slots.assign_eq_ok List.nodup_nil hslots
  obtain ⟨entries, hentries, h⟩ := exists_of_bind_eq_ok h
  obtain ⟨hshapes, hlink⟩ := Definitions.link_of_mapM_eq_ok hdistinct hentries
  dsimp only [List.nil_append] at h
  rw [hlink] at h
  cases hcycle : ds.link.unguardedCycle? with
  | some cycle =>
    rw [hcycle] at h
    cases h
  | none =>
    rw [hcycle] at h
    cases h
    exact ⟨⟨hnamed, hdistinct, hshapes, hcycle⟩, rfl⟩

/-! ## Slots -/

namespace Definitions

variable {ds : Definitions} {slot : Nat} {d : Definition}

theorem entries_link (ds : Definitions) (slot : Nat) :
    ds.link.entries[slot]? = ds.types[slot]?.map (Entry.ofDefinition ds.names) :=
  List.getElem?_map

theorem length_link (ds : Definitions) : ds.link.entries.length = ds.types.length :=
  List.length_map _

theorem names_link (ds : Definitions) : ds.link.names = ds.names := by
  simp [Registry.names, link, names, Entry.ofDefinition]

theorem names_getElem? (h : ds.types[slot]? = some d) : ds.names[slot]? = some d.name := by
  rw [names, List.getElem?_map, h]
  rfl

/-- The slot of a name is the place of its definition. -/
theorem idxOf_name (hd : ds.names.Nodup) (h : ds.types[slot]? = some d) :
    ds.names.idxOf d.name = slot := by
  obtain ⟨hlt, heq⟩ := List.getElem?_eq_some_iff.1 (names_getElem? h)
  rw [← heq, hd.idxOf_getElem]

/-- The registry has the slot of every name. -/
theorem find?_slots_of_mem (hd : ds.names.Nodup) {name : String} (h : name ∈ ds.names) :
    ds.link.slots.find? name = some (ds.names.idxOf name) := by
  rw [link, Slots.places_ofNames hd, idxOf?_of_mem h]

/-- The slot of a name is that of its definition. -/
theorem find?_slots_link (hd : ds.names.Nodup) (h : ds.types[slot]? = some d) :
    ds.link.slots.find? d.name = some slot := by
  rw [find?_slots_of_mem hd (List.mem_of_getElem? (names_getElem? h)), idxOf_name hd h]

/-- A name has a definition in its slot. -/
theorem exists_of_mem_names (hd : ds.names.Nodup) {name : String} (h : name ∈ ds.names) :
    ∃ shape, ds.types[ds.names.idxOf name]? = some ⟨name, shape⟩ := by
  obtain ⟨d, hmem, rfl⟩ := List.mem_map.1 h
  obtain ⟨slot, hslot⟩ := List.getElem?_of_mem hmem
  exact ⟨d.shape, by rw [idxOf_name hd hslot, hslot]⟩

/-- The shape that is found under a name is defined. -/
theorem mem_of_get? {name : String} {shape : Shape} (h : ds.get? name = some shape) :
    ⟨name, shape⟩ ∈ ds.types := by
  obtain ⟨d, hfind, rfl⟩ := Option.map_eq_some_iff.1 h
  have hname : d.name = name := by simpa using List.find?_some hfind
  rw [← hname]
  exact List.mem_of_find?_eq_some hfind

/-- The shape of a name is found in its slot. -/
theorem get?_eq_some_iff (hd : ds.names.Nodup) {name : String} {shape : Shape} :
    ds.get? name = some shape ↔ ds.types[ds.names.idxOf name]? = some ⟨name, shape⟩ := by
  constructor
  · intro h
    obtain ⟨slot, hslot⟩ := List.getElem?_of_mem (mem_of_get? h)
    have hidx : ds.names.idxOf name = slot := idxOf_name hd hslot
    rw [hidx, hslot]
  · intro h
    cases hfind : ds.types.find? fun d => d.name == name with
    | none =>
      have := List.find?_eq_none.1 hfind _ (List.mem_of_getElem? h)
      simp at this
    | some d =>
      obtain ⟨slot, hslot⟩ := List.getElem?_of_mem (List.mem_of_find?_eq_some hfind)
      have hname : d.name = name := by simpa using List.find?_some hfind
      rw [← hname, idxOf_name hd hslot, hslot] at h
      rw [get?, hfind]
      exact congrArg (fun d => some d.shape) (Option.some.inj h)

/-- A definition is found under its name. -/
theorem get?_of_mem (hd : ds.names.Nodup) (h : d ∈ ds.types) :
    ds.get? d.name = some d.shape := by
  obtain ⟨slot, hslot⟩ := List.getElem?_of_mem h
  rw [get?_eq_some_iff hd, idxOf_name hd hslot, hslot]

/-- The binding of the definition in a slot. -/
def binding (ds : Definitions) (slot : Nat) (d : Definition) : Binding :=
  ⟨ds.link, slot, .ofDefinition ds.names d⟩

/-- Every definition is bound to its name. -/
theorem get?_link (hd : ds.names.Nodup) (h : ds.types[slot]? = some d) :
    ds.link.get? d.name = some (ds.binding slot d) := by
  rw [Registry.get?, find?_slots_link hd h]
  simp only [entries_link, h]
  rfl

/-- Nothing else is bound. -/
theorem get?_link_of_notMem {name : String} (h : name ∉ ds.names) :
    ds.link.get? name = none := by
  rw [Registry.get?, link, Slots.find?_ofNames_of_notMem h]

/-- Every binding is that of a definition. -/
theorem exists_of_get?_link {name : String} {b : Binding} (h : ds.link.get? name = some b) :
    ∃ slot d, ds.types[slot]? = some d ∧ d.name = name ∧ b = ds.binding slot d := by
  rw [Registry.get?] at h
  split at h
  · next slot hslot =>
    obtain ⟨entry, hentry, rfl⟩ := Option.map_eq_some_iff.1 h
    rw [entries_link] at hentry
    obtain ⟨d, hd, rfl⟩ := Option.map_eq_some_iff.1 hentry
    have hname := Slots.getElem?_of_find?_ofNames hslot
    rw [names_getElem? hd] at hname
    exact ⟨slot, d, hd, Option.some.inj hname, rfl⟩
  · cases h

end Definitions

/-! ## Definitions that refer to themselves -/

/-- Trees whose children form a forest. Nothing but the number is required. -/
def Definition.tree : Definition :=
  ⟨"Tree", .object [⟨"value", .number, true⟩, ⟨"children", .alias "Forest", false⟩]⟩

/-- Lists of trees. -/
def Definition.forest : Definition := ⟨"Forest", .array (.alias "Tree")⟩

/-- A shape that refers to itself where it is never tried. -/
def Definition.loose : Definition := ⟨"Loose", .union [.any, .alias "Loose"]⟩

/-- Definitions in which references form circles, all of them guarded. -/
def Definitions.forest : Definitions := ⟨none, [.tree, .forest, .loose]⟩

end JsonShape
