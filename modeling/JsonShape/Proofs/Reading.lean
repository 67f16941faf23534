import JsonShape.Proofs.Fields
import JsonShape.Proofs.Spelling

/-!
# Proofs: reading shapes

Reading a document as a shape succeeds with exactly the shapes the document spells. The readers of
objects and of arrays find the values of the fields in different ways, and then decode them alike
(`Dialect.Decodes`); that the fields are decoded as they are spelled is shown by induction on the
shape, for all documents at once.
-/

namespace JsonShape

open Json (valuesOf)

namespace Dialect

section Words

variable {d : Dialect} {outermost : Bool} {tag : Json} {entries : List (String × Json)}

theorem kindOf_word (hd : d.Unambiguous) {word : String} {kind : Kind} :
    d.kindOf outermost (.string word) = .ok kind ↔ word = d.word kind := by
  rw [kindOf]
  constructor
  · intro h
    split at h
    · next hfound =>
      cases h
      have hword := List.find?_some hfound
      exact (of_decide_eq_true hword).symm
    · cases h
  · rintro rfl
    rw [hd.find?_word]

theorem kindOf_natural {n : Fin Number.naturalEnd} {kind : Kind} :
    d.kindOf outermost (.number (.natural n)) = .ok kind ↔
      outermost = false ∧ Kind.all[n.val]? = some kind := by
  rw [kindOf]
  cases outermost with
  | true => simp [Node.refuse]
  | false => cases Kind.all[n.val]? <;> simp [mismatch]

theorem kindOf_iff (hd : d.Unambiguous) {kind : Kind} :
    d.kindOf outermost (.ofJson .whole tag) = .ok kind ↔ d.Names (!outermost) tag kind := by
  constructor
  · intro h
    cases tag with
    | string word =>
      obtain rfl := (kindOf_word hd).1 h
      exact .word kind
    | number n =>
      cases n with
      | natural n =>
        obtain ⟨rfl, hn⟩ := kindOf_natural.1 h
        exact .number rfl hn
      | _ => cases h
    | _ => cases h
  · intro h
    cases h with
    | word => exact (kindOf_word hd).2 rfl
    | number hnumbered hn => exact kindOf_natural.2 ⟨by simpa using hnumbered, hn⟩

theorem kindAmong_iff {known : Option Kind} {kind : Kind} :
    d.kindAmong outermost known (Node.ofEntries .whole entries) = .ok kind ↔
      Collects (fun tag => d.kindOf outermost (.ofJson .whole tag)) known
        (valuesOf d.tag entries) (some kind) := by
  induction entries generalizing known with
  | nil =>
    rw [valuesOf, collects_nil, Node.ofEntries, kindAmong, present_eq_ok_iff, eq_comm]
  | cons entry rest ih =>
    obtain ⟨key, value⟩ := entry
    simp only [Node.ofEntries, Interest.member, kindAmong]
    by_cases hkey : key = d.tag
    · subst hkey
      rw [if_pos rfl, Json.valuesOf_cons_self, collects_cons]
      cases known with
      | some known => simp [mismatch]
      | none =>
        cases hkind : d.kindOf outermost (.ofJson .whole value) with
        | ok kind => simp [ih]
        | error f => simp
    · rw [if_neg hkey, Node.whole_ofJson, Json.valuesOf_cons_ne hkey]
      exact ih

end Words

end Dialect

/-! ## Parts of objects -/

section Parts

variable {d : Dialect}

theorem Shape.elementAmong_eq_memberOf? (nodes : List (Node × Node)) :
    Shape.elementAmong d nodes = memberOf? d.elementField (Shape.ofNode d false) nodes := by
  induction nodes with
  | nil => rfl
  | cons entry rest ih => rw [Shape.elementAmong, memberOf?, ih]

theorem Shape.membersAmong_eq_memberOf? (nodes : List (Node × Node)) :
    Shape.membersAmong d nodes = memberOf? "members" (Shape.membersOf d) nodes := by
  induction nodes with
  | nil => rfl
  | cons entry rest ih => rw [Shape.membersAmong, memberOf?, ih]

theorem Shape.propertiesAmong_eq_memberOf? (nodes : List (Node × Node)) :
    Shape.propertiesAmong d nodes = memberOf? "properties" (Shape.propertiesOf d) nodes := by
  induction nodes with
  | nil => rfl
  | cons entry rest ih => rw [Shape.propertiesAmong, memberOf?, ih]

/-- There is one field, and the shape is made from what is decoded there. -/
def Sole {α : Type} (decode : Node → Except Fault α) (make : α → Shape) (values : List Json)
    (shape : Shape) : Prop :=
  ∃ value x, values = [value] ∧ decode (.ofJson .whole value) = .ok x ∧ make x = shape

/-- A shape of a kind is decoded from the values of its fields. -/
def Dialect.Decodes (d : Dialect) (values : List Json) (shape : Shape) : Kind → Prop
  | .alias => Sole Node.string? .alias values shape
  | .any => values = [] ∧ .any = shape
  | .array => Sole (Shape.ofNode d false) .array values shape
  | .boolean => values = [] ∧ .boolean = shape
  | .literal => Sole Literal.ofNode .literal values shape
  | .null => values = [] ∧ .null = shape
  | .number => values = [] ∧ .number = shape
  | .object => Sole (Shape.propertiesOf d) .object values shape
  | .string => values = [] ∧ .string = shape
  | .undefined => values = [] ∧ .undefined = shape
  | .union => Sole (Shape.membersOf d) .union values shape

section Forms

variable {α : Type} {field : String} {decode : Node → Except Fault α} {make : α → Shape}
  {entries : List (String × Json)} {shape made : Shape}

theorem sole_of_members : (do
      let known ← memberOf? field decode (Node.ofEntries .whole entries)
      let x ← present field known
      return make x) = .ok shape ↔
    ∃ values, [field].map (valuesOf · entries) = values.map ([·]) ∧
      Sole decode make values shape := by
  simp only [bind_eq_ok_iff, memberOf?_iff, present_eq_ok_iff, pure_eq_ok, Except.ok.injEq]
  constructor
  · rintro ⟨-, hcollects, x, rfl, hx⟩
    obtain ⟨value, hvalue, hdecode⟩ := collects_some.1 hcollects
    exact ⟨[value], by simp [hvalue], value, x, rfl, hdecode, hx⟩
  · rintro ⟨-, hvalues, value, x, rfl, hdecode, hx⟩
    have hvalue : valuesOf field entries = [value] := by simpa using hvalues
    exact ⟨some x, collects_some.2 ⟨value, hvalue, hdecode⟩, x, rfl, hx⟩

theorem none_of_members : (Except.ok made : Except Fault Shape) = .ok shape ↔
    ∃ values, [].map (valuesOf · entries) = values.map ([·]) ∧ values = [] ∧ made = shape := by
  simp

theorem sole_of_items {value : Json} {rest : List Json} : (do
      let x ← decode (.ofJson .whole value)
      noSurplus 1 (rest.map (Node.ofJson .whole))
      return make x) = .ok shape ↔ Sole decode make (value :: rest) shape := by
  simp only [bind_eq_ok_iff, pure_eq_ok, Except.ok.injEq]
  constructor
  · rintro ⟨x, hdecode, _, hrest, hx⟩
    obtain rfl : rest = [] := by simpa using noSurplus_iff.1 hrest
    exact ⟨value, x, rfl, hdecode, hx⟩
  · rintro ⟨_, x, ⟨⟩, hdecode, hx⟩
    exact ⟨x, hdecode, (), rfl, hx⟩

theorem none_of_items {values : List Json} : (do
      noSurplus 0 (values.map (Node.ofJson .whole))
      return made) = .ok shape ↔ values = [] ∧ made = shape := by
  simp only [bind_eq_ok_iff, pure_eq_ok, Except.ok.injEq]
  constructor
  · rintro ⟨_, hvalues, hmade⟩
    exact ⟨by simpa using noSurplus_iff.1 hvalues, hmade⟩
  · rintro ⟨rfl, hmade⟩
    exact ⟨(), rfl, hmade⟩

end Forms

variable {outermost : Bool} {shape : Shape}

theorem Shape.ofNode_mapping_iff {entries : List (String × Json)} :
    Shape.ofNode d outermost (.mapping (Node.ofEntries .whole entries)) = .ok shape ↔
      ∃ kind, (∃ tag, valuesOf d.tag entries = [tag] ∧
        d.kindOf outermost (.ofJson .whole tag) = .ok kind) ∧
        ∃ values, (d.fieldsOf kind).map (valuesOf · entries) = values.map ([·]) ∧
          d.Decodes values shape kind := by
  rw [Shape.ofNode, bind_eq_ok_iff]
  refine exists_congr fun kind => ?_
  rw [Dialect.kindAmong_iff, collects_some]
  refine and_congr_right fun _ => ?_
  rw [Shape.elementAmong_eq_memberOf?, Shape.propertiesAmong_eq_memberOf?, Shape.membersAmong_eq_memberOf?]
  cases kind <;> first | exact sole_of_members | exact none_of_members

theorem Shape.ofFields_iff {kind : Kind} {values : List Json} :
    Shape.ofFields d kind (values.map (.ofJson .whole)) = .ok shape ↔
      d.Decodes values shape kind := by
  cases kind <;> cases values
  all_goals
    first
    | exact sole_of_items
    | exact none_of_items
    | simp [Shape.ofFields, Dialect.Decodes, Sole, mismatch]

theorem Shape.ofNode_sequence_iff {tag : Json} {values : List Json} :
    Shape.ofNode d outermost (.ofJson .whole (.array (tag :: values))) = .ok shape ↔
      ∃ kind, d.kindOf outermost (.ofJson .whole tag) = .ok kind ∧ d.Decodes values shape kind := by
  have hwhole : (Node.sequence (values.map (.ofJson .whole))).whole = .ok () := by
    rw [← Node.ofJson_array]
    exact Node.whole_ofJson _
  rw [Node.ofJson_array, List.map_cons, Shape.ofNode, bind_eq_ok_iff]
  refine exists_congr fun kind => and_congr_right fun _ => ?_
  rw [hwhole, ok_bind, Shape.ofFields_iff]

end Parts

/-! ## Reading is spelling -/

section Reading

variable {d : Dialect} {outermost : Bool} {shape : Shape}

theorem Sole.kind_eq {α : Type} {decode : Node → Except Fault α} {make : α → Shape} {kind : Kind}
    {values : List Json} (hmake : ∀ x, kind = (make x).kind) (h : Sole decode make values shape) :
    kind = shape.kind := by
  obtain ⟨value, x, hvalue, hdecode, rfl⟩ := h
  exact hmake x

theorem Dialect.Decodes.kind_eq {values : List Json} {kind : Kind}
    (h : d.Decodes values shape kind) : kind = shape.kind := by
  cases kind
  all_goals
    first
    | exact Sole.kind_eq (fun _ => rfl) h
    | exact congrArg Shape.kind h.2

/-- If the fields of a shape are decoded as they are spelled, so is the shape. -/
theorem Shape.ofNode_iff_of_fields (hd : d.Unambiguous)
    (h : ∀ values, d.Decodes values shape shape.kind ↔ d.SpellsFields true values shape)
    (json : Json) : Shape.ofNode d outermost (.ofJson .whole json) = .ok shape ↔
      d.Spells true (!outermost) json shape := by
  constructor
  · intro hok
    cases json with
    | object entries =>
      rw [Node.ofJson] at hok
      obtain ⟨kind, ⟨tag, htag, hkind⟩, values, hvalues, hdecodes⟩ := Shape.ofNode_mapping_iff.1 hok
      obtain rfl := hdecodes.kind_eq
      exact .object htag ((Dialect.kindOf_iff hd).1 hkind) hvalues ((h values).1 hdecodes)
    | array items =>
      cases items with
      | nil => cases hok
      | cons tag values =>
        obtain ⟨kind, hkind, hdecodes⟩ := Shape.ofNode_sequence_iff.1 hok
        obtain rfl := hdecodes.kind_eq
        exact .array ((Dialect.kindOf_iff hd).1 hkind) ((h values).1 hdecodes)
    | _ => cases hok
  · intro hspells
    cases hspells with
    | object htag hkind hvalues hfields =>
      rw [Node.ofJson]
      exact Shape.ofNode_mapping_iff.2 ⟨_, ⟨_, htag, (Dialect.kindOf_iff hd).2 hkind⟩, _, hvalues,
        (h _).2 hfields⟩
    | array hkind hfields =>
      exact Shape.ofNode_sequence_iff.2 ⟨_, (Dialect.kindOf_iff hd).2 hkind, (h _).2 hfields⟩

/-! ## Properties -/

/-- The key of a field of a property. -/
def Dialect.keyOf (d : Dialect) : Dialect.PropertyField → String
  | .name => "name"
  | .shape => d.shapeField
  | .required => "required"

theorem Dialect.keyOf_inj (hd : d.Unambiguous) {field other : Dialect.PropertyField}
    (h : d.keyOf field = d.keyOf other) : field = other := by
  have hname := hd.shapeField_ne_name
  have hrequired := hd.shapeField_ne_required
  cases field <;> cases other <;> simp_all [Dialect.keyOf, eq_comm]

theorem Dialect.exists_place_of_keyOf (hd : d.Unambiguous) (field : Dialect.PropertyField) :
    ∃ place, fieldOf? d.propertyFields (.string (d.keyOf field)) = .ok (some place) ∧
      d.propertyField place = field := by
  have hname := hd.shapeField_ne_name
  have hrequired := hd.shapeField_ne_required
  cases hfirst : d.requiredFirst <;> cases field <;>
    simp [fieldOf?, Dialect.propertyFields, Dialect.propertyField, Dialect.keyOf, hfirst,
      List.idxOf?, List.findIdx?_cons, hname.symm, hrequired, hrequired.symm]

theorem Dialect.fieldOf?_propertyFields_none {key : String} (h : ∀ field, d.keyOf field ≠ key) :
    fieldOf? d.propertyFields (.string key) = .ok none := by
  have hname : "name" ≠ key := h .name
  have hshape : d.shapeField ≠ key := h .shape
  have hrequired : "required" ≠ key := h .required
  cases hfirst : d.requiredFirst <;>
    simp [fieldOf?, Dialect.propertyFields, hfirst, List.idxOf?, List.findIdx?_cons, hname, hshape,
      hrequired]

/-- What the entries of a property say, if something is known of it before. -/
theorem Property.ofEntries_iff (hd : d.Unambiguous) {entries : List (String × Json)}
    {known : Dialect.Partial} {p : Property} :
    Property.ofEntries d known (Node.ofEntries .whole entries) = .ok p ↔
      ∃ total, d.complete total = .ok p ∧
        Collects (fun value => (Node.ofJson .whole value).string?) known.name
          (valuesOf (d.keyOf .name) entries) total.name ∧
        Collects (fun value => Shape.ofNode d false (.ofJson .whole value)) known.shape
          (valuesOf (d.keyOf .shape) entries) total.shape ∧
        Collects (fun value => (Node.ofJson .whole value).bool?) known.required
          (valuesOf (d.keyOf .required) entries) total.required := by
  induction entries generalizing known with
  | nil =>
    rw [Node.ofEntries, Property.ofEntries]
    simp only [valuesOf, collects_nil]
    constructor
    · intro h
      exact ⟨known, h, rfl, rfl, rfl⟩
    · rintro ⟨⟨name, shape, required⟩, h, rfl, rfl, rfl⟩
      exact h
  | cons entry rest ih =>
    obtain ⟨key, value⟩ := entry
    simp only [Node.ofEntries, Interest.member, Property.ofEntries]
    -- an entry concerns one of the three fields, or is passed over
    by_cases hkey : ∃ field, d.keyOf field = key
    · obtain ⟨field, rfl⟩ := hkey
      obtain ⟨place, hplace, hfield⟩ := Dialect.exists_place_of_keyOf hd field
      have hother : ∀ other, field ≠ other →
          valuesOf (d.keyOf other) ((d.keyOf field, value) :: rest) =
            valuesOf (d.keyOf other) rest := by
        intro other hne
        exact Json.valuesOf_cons_ne fun heq => hne (Dialect.keyOf_inj hd heq)
      simp only [hplace, hfield]
      cases field with
      | name =>
        rw [Json.valuesOf_cons_self, hother .shape (by simp), hother .required (by simp)]
        rw [fresh_bind_iff, bind_eq_ok_iff]
        simp only [ih, collects_cons]
        constructor
        · rintro ⟨hnone, x, hx, total, hcomplete, hname, hrest⟩
          exact ⟨total, hcomplete, ⟨hnone, x, hx, hname⟩, hrest⟩
        · rintro ⟨total, hcomplete, ⟨hnone, x, hx, hname⟩, hrest⟩
          exact ⟨hnone, x, hx, total, hcomplete, hname, hrest⟩
      | shape =>
        rw [Json.valuesOf_cons_self, hother .name (by simp), hother .required (by simp)]
        rw [fresh_bind_iff, bind_eq_ok_iff]
        simp only [ih, collects_cons]
        constructor
        · rintro ⟨hnone, x, hx, total, hcomplete, hname, hshape, hrequired⟩
          exact ⟨total, hcomplete, hname, ⟨hnone, x, hx, hshape⟩, hrequired⟩
        · rintro ⟨total, hcomplete, hname, ⟨hnone, x, hx, hshape⟩, hrequired⟩
          exact ⟨hnone, x, hx, total, hcomplete, hname, hshape, hrequired⟩
      | required =>
        rw [Json.valuesOf_cons_self, hother .name (by simp), hother .shape (by simp)]
        rw [fresh_bind_iff, bind_eq_ok_iff]
        simp only [ih, collects_cons]
        constructor
        · rintro ⟨hnone, x, hx, total, hcomplete, hname, hshape, hrequired⟩
          exact ⟨total, hcomplete, hname, hshape, hnone, x, hx, hrequired⟩
        · rintro ⟨total, hcomplete, hname, hshape, hnone, x, hx, hrequired⟩
          exact ⟨hnone, x, hx, total, hcomplete, hname, hshape, hrequired⟩
    · have hother : ∀ field, valuesOf (d.keyOf field) ((key, value) :: rest) =
          valuesOf (d.keyOf field) rest := by
        intro field
        exact Json.valuesOf_cons_ne fun heq => hkey ⟨field, heq.symm⟩
      rw [Dialect.fieldOf?_propertyFields_none (not_exists.1 hkey), hother, hother, hother]
      exact ih

theorem Dialect.complete_iff {total : Dialect.Partial} {p : Property} :
    d.complete total = .ok p ↔ total.name = some p.name ∧ total.shape = some p.shape ∧
      (total.required = some p.required ∨
        d.requiredFirst = false ∧ total.required = none ∧ p.required = true) := by
  obtain ⟨name, shape, required⟩ := p
  obtain ⟨name?, shape?, required?⟩ := total
  cases hfirst : d.requiredFirst with
  | true =>
    simp only [Dialect.complete, hfirst, if_true, bind_eq_ok_iff, present_eq_ok_iff, pure_eq_ok,
      Except.ok.injEq, Property.mk.injEq]
    constructor
    · rintro ⟨_, hname, _, hrequired, _, hshape, rfl, rfl, rfl⟩
      exact ⟨hname, hshape, .inl hrequired⟩
    · rintro ⟨hname, hshape, hrequired | ⟨⟨⟩, -⟩⟩
      exact ⟨name, hname, required, hrequired, shape, hshape, rfl, rfl, rfl⟩
  | false =>
    simp only [Dialect.complete, hfirst, Bool.false_eq_true, if_false, bind_eq_ok_iff,
      present_eq_ok_iff, pure_eq_ok, Except.ok.injEq, Property.mk.injEq]
    constructor
    · rintro ⟨_, hname, _, hshape, rfl, rfl, rfl⟩
      cases required? with
      | none => exact ⟨hname, hshape, .inr ⟨trivial, rfl, rfl⟩⟩
      | some flag => exact ⟨hname, hshape, .inl rfl⟩
    · rintro ⟨hname, hshape, rfl | ⟨-, rfl, rfl⟩⟩
      · exact ⟨name, hname, shape, hshape, rfl, rfl, rfl⟩
      · exact ⟨name, hname, shape, hshape, rfl, rfl, rfl⟩

theorem Dialect.spellsRequired_iff {values : List Json} {required : Bool} :
    d.SpellsRequired values required ↔ ∃ known,
      Collects (fun value => (Node.ofJson .whole value).bool?) none values known ∧
        (known = some required ∨ d.requiredFirst = false ∧ known = none ∧ required = true) := by
  constructor
  · intro h
    cases h with
    | stated => exact ⟨some required, .read rfl, .inl rfl⟩
    | unstated hfirst => exact ⟨none, .kept none, .inr ⟨hfirst, rfl, rfl⟩⟩
  · rintro ⟨known, hcollects, rfl | ⟨hfirst, rfl, rfl⟩⟩
    · obtain ⟨value, rfl, hvalue⟩ := collects_some.1 hcollects
      obtain rfl := Node.bool?_ofJson.1 hvalue
      exact .stated required
    · obtain rfl := collects_none.1 hcollects
      exact .unstated hfirst

section Property

variable {name : String} {required : Bool}

theorem Property.ofNode_object_iff (hd : d.Unambiguous)
    (h : ∀ json, Shape.ofNode d false (.ofJson .whole json) = .ok shape ↔
      d.Spells true true json shape) {entries : List (String × Json)} :
    Property.ofNode d (.ofJson .whole (.object entries)) = .ok ⟨name, shape, required⟩ ↔
      d.SpellsProperty true (.object entries) ⟨name, shape, required⟩ := by
  rw [Node.ofJson, Property.ofNode, Property.ofEntries_iff hd]
  constructor
  · rintro ⟨total, hcomplete, hname, hshape, hrequired⟩
    obtain ⟨htotalname, htotalshape, htotalrequired⟩ := Dialect.complete_iff.1 hcomplete
    rw [htotalname] at hname
    rw [htotalshape] at hshape
    obtain ⟨_, hname, hread⟩ := collects_some.1 hname
    obtain rfl := Node.string?_ofJson.1 hread
    obtain ⟨value, hvalue, hread⟩ := collects_some.1 hshape
    exact .object hname hvalue ((h value).1 hread)
      (Dialect.spellsRequired_iff.2 ⟨_, hrequired, htotalrequired⟩)
  · intro hspells
    cases hspells with
    | object hname hvalue hspells hrequired =>
      obtain ⟨known, hcollects, hknown⟩ := Dialect.spellsRequired_iff.1 hrequired
      refine ⟨⟨some _, some _, known⟩, Dialect.complete_iff.2 ⟨rfl, rfl, hknown⟩, ?_, ?_, hcollects⟩
      · exact collects_some.2 ⟨_, hname, rfl⟩
      · exact collects_some.2 ⟨_, hvalue, (h _).2 hspells⟩

theorem Property.ofFields_required_first
    (h : ∀ json, Shape.ofNode d false (.ofJson .whole json) = .ok shape ↔
      d.Spells true true json shape) {fields : List Json} {written : String} :
    Property.ofFields d written true (fields.map (.ofJson .whole)) = .ok ⟨name, shape, required⟩ ↔
      written = name ∧ ∃ value, fields = [.bool required, value] ∧
        d.Spells true true value shape := by
  constructor
  · intro hok
    match fields with
    | [] => cases hok
    | [flag] =>
      obtain ⟨_, -, hshort⟩ := exists_of_bind_eq_ok hok
      cases hshort
    | flag :: value :: rest =>
      obtain ⟨_, hflag, hok⟩ := exists_of_bind_eq_ok hok
      obtain ⟨_, hvalue, hok⟩ := exists_of_bind_eq_ok hok
      obtain ⟨_, hrest, hok⟩ := exists_of_bind_eq_ok hok
      cases hok
      obtain rfl := Node.bool?_ofJson.1 hflag
      obtain rfl : rest = [] := by simpa using noSurplus_iff.1 hrest
      exact ⟨rfl, value, rfl, (h value).1 hvalue⟩
  · rintro ⟨rfl, value, rfl, hspells⟩
    simp only [List.map_cons, Property.ofFields, (h value).2 hspells]
    rfl

theorem Property.ofFields_required_last
    (h : ∀ json, Shape.ofNode d false (.ofJson .whole json) = .ok shape ↔
      d.Spells true true json shape) {fields : List Json} {written : String} :
    Property.ofFields d written false (fields.map (.ofJson .whole)) = .ok ⟨name, shape, required⟩ ↔
      written = name ∧ ∃ value flag, fields = value :: flag ∧ d.Spells true true value shape ∧
        (flag = [.bool required] ∨ flag = [] ∧ required = true) := by
  constructor
  · intro hok
    match fields with
    | [] => cases hok
    | [value] =>
      obtain ⟨_, hvalue, hok⟩ := exists_of_bind_eq_ok hok
      cases hok
      exact ⟨rfl, value, [], rfl, (h value).1 hvalue, .inr ⟨rfl, rfl⟩⟩
    | value :: flag :: rest =>
      obtain ⟨_, hvalue, hok⟩ := exists_of_bind_eq_ok hok
      obtain ⟨_, hflag, hok⟩ := exists_of_bind_eq_ok hok
      obtain ⟨_, hrest, hok⟩ := exists_of_bind_eq_ok hok
      cases hok
      obtain rfl := Node.bool?_ofJson.1 hflag
      obtain rfl : rest = [] := by simpa using noSurplus_iff.1 hrest
      exact ⟨rfl, value, _, rfl, (h value).1 hvalue, .inl rfl⟩
  · rintro ⟨rfl, value, _, rfl, hspells, rfl | ⟨rfl, rfl⟩⟩
    · simp only [List.map_cons, Property.ofFields, (h value).2 hspells]
      rfl
    · simp only [List.map_cons, List.map_nil, Property.ofFields, (h value).2 hspells]
      rfl

theorem Property.ofFields_iff
    (h : ∀ json, Shape.ofNode d false (.ofJson .whole json) = .ok shape ↔
      d.Spells true true json shape) {fields : List Json} {written : String} :
    Property.ofFields d written d.requiredFirst (fields.map (.ofJson .whole)) =
        .ok ⟨name, shape, required⟩ ↔
      written = name ∧ ∃ value flag, fields = d.inOrder value flag ∧
        d.Spells true true value shape ∧ d.SpellsRequired flag required := by
  cases hfirst : d.requiredFirst with
  | true =>
    simp only [ofFields_required_first h, Dialect.inOrder, hfirst, if_true]
    constructor
    · rintro ⟨rfl, value, rfl, hspells⟩
      exact ⟨rfl, value, _, rfl, hspells, .stated required⟩
    · rintro ⟨rfl, value, _, rfl, hspells, hrequired⟩
      cases hrequired with
      | stated => exact ⟨rfl, value, rfl, hspells⟩
      | unstated hlast => simp [hfirst] at hlast
  | false =>
    simp only [ofFields_required_last h, Dialect.inOrder, hfirst, Bool.false_eq_true, if_false]
    constructor
    · rintro ⟨rfl, value, _, rfl, hspells, rfl | ⟨rfl, rfl⟩⟩
      · exact ⟨rfl, value, _, rfl, hspells, .stated required⟩
      · exact ⟨rfl, value, _, rfl, hspells, .unstated hfirst⟩
    · rintro ⟨rfl, value, _, rfl, hspells, hrequired⟩
      cases hrequired with
      | stated => exact ⟨rfl, value, _, rfl, hspells, .inl rfl⟩
      | unstated => exact ⟨rfl, value, _, rfl, hspells, .inr ⟨rfl, rfl⟩⟩

theorem Property.ofNode_array_iff
    (h : ∀ json, Shape.ofNode d false (.ofJson .whole json) = .ok shape ↔
      d.Spells true true json shape) {items : List Json} :
    Property.ofNode d (.ofJson .whole (.array items)) = .ok ⟨name, shape, required⟩ ↔
      d.SpellsProperty true (.array items) ⟨name, shape, required⟩ := by
  rw [Node.ofJson_array]
  cases items with
  | nil =>
    constructor
    · intro h
      cases h
    · intro h
      cases h
  | cons first fields =>
    rw [List.map_cons, Property.ofNode, bind_eq_ok_iff]
    constructor
    · rintro ⟨written, hname, hok⟩
      obtain rfl := Node.string?_ofJson.1 hname
      obtain ⟨rfl, value, flag, rfl, hspells, hrequired⟩ := (Property.ofFields_iff h).1 hok
      exact .array hspells hrequired
    · intro hspells
      cases hspells with
      | array hspells hrequired =>
        exact ⟨name, rfl, (Property.ofFields_iff h).2 ⟨rfl, _, _, rfl, hspells, hrequired⟩⟩

theorem Property.ofNode_iff_spells (hd : d.Unambiguous) {p : Property}
    (h : ∀ json, Shape.ofNode d false (.ofJson .whole json) = .ok p.shape ↔
      d.Spells true true json p.shape) (json : Json) :
    Property.ofNode d (.ofJson .whole json) = .ok p ↔ d.SpellsProperty true json p := by
  cases p
  cases json with
  | object entries => exact Property.ofNode_object_iff hd h
  | array items => exact Property.ofNode_array_iff h
  | _ =>
    constructor
    · intro h
      cases h
    · intro h
      cases h

end Property

/-! ## Lists -/

theorem Shape.ofNodes_eq_mapM (nodes : List Node) :
    Shape.ofNodes d nodes = nodes.mapM (Shape.ofNode d false) := by
  induction nodes with
  | nil => rfl
  | cons node rest ih => rw [Shape.ofNodes, List.mapM_cons, ih]

theorem Property.ofNodes_eq_mapM (nodes : List Node) :
    Property.ofNodes d nodes = nodes.mapM (Property.ofNode d) := by
  induction nodes with
  | nil => rfl
  | cons node rest ih => rw [Property.ofNodes, List.mapM_cons, ih]

theorem Shape.membersOf_iff {members : List Shape}
    (h : ∀ member ∈ members, ∀ item, Shape.ofNode d false (.ofJson .whole item) = .ok member ↔
      d.Spells true true item member) (value : Json) :
    Shape.membersOf d (.ofJson .whole value) = .ok members ↔
      ∃ items, value = .array items ∧ List.Forall₂ (d.Spells true true) items members := by
  cases value with
  | array items =>
    rw [Node.ofJson_array, Shape.membersOf, Shape.ofNodes_eq_mapM, mapM_ofJson_iff h]
    simp
  | _ => simp [Node.ofJson, Shape.membersOf, Node.refuse]

theorem Shape.propertiesOf_iff (hd : d.Unambiguous) {properties : List Property}
    (h : ∀ p ∈ properties, ∀ item, Shape.ofNode d false (.ofJson .whole item) = .ok p.shape ↔
      d.Spells true true item p.shape) (value : Json) :
    Shape.propertiesOf d (.ofJson .whole value) = .ok properties ↔
      ∃ items, value = .array items ∧ List.Forall₂ (d.SpellsProperty true) items properties := by
  have hproperty : ∀ p ∈ properties, ∀ item,
      Property.ofNode d (.ofJson .whole item) = .ok p ↔ d.SpellsProperty true item p := by
    intro p hp
    exact Property.ofNode_iff_spells hd (h p hp)
  cases value with
  | array items =>
    rw [Node.ofJson_array, Shape.propertiesOf, Property.ofNodes_eq_mapM, mapM_ofJson_iff hproperty]
    simp
  | _ => simp [Node.ofJson, Shape.propertiesOf, Node.refuse]

/-- A document is read as the shapes it spells. -/
theorem Shape.ofNode_iff_spells (hd : d.Unambiguous) (json : Json) :
    Shape.ofNode d outermost (.ofJson .whole json) = .ok shape ↔
      d.Spells true (!outermost) json shape := by
  -- on the shape; which documents spell its parts is known for all documents
  induction shape generalizing outermost json with
  | reference name =>
    refine Shape.ofNode_iff_of_fields hd (fun values => ?_) json
    constructor
    · rintro ⟨value, _, rfl, hname, ⟨⟩⟩
      obtain rfl := Node.string?_ofJson.1 hname
      exact .reference name
    · intro hspells
      cases hspells
      exact ⟨_, name, rfl, rfl, rfl⟩
  | array element ih =>
    refine Shape.ofNode_iff_of_fields hd (fun values => ?_) json
    constructor
    · rintro ⟨value, _, rfl, helement, ⟨⟩⟩
      exact .array ((ih value).1 helement)
    · intro hspells
      cases hspells with
      | array helement => exact ⟨_, element, rfl, (ih _).2 helement, rfl⟩
  | literal literal =>
    refine Shape.ofNode_iff_of_fields hd (fun values => ?_) json
    constructor
    · rintro ⟨value, _, rfl, hliteral, ⟨⟩⟩
      obtain rfl := Node.literal_ofJson.1 hliteral
      exact .literal literal
    · intro hspells
      cases hspells
      exact ⟨_, literal, rfl, Node.literal_ofJson.2 rfl, rfl⟩
  | object properties ih =>
    have hproperties := Shape.propertiesOf_iff hd fun p hp => ih p hp
    refine Shape.ofNode_iff_of_fields hd (fun values => ?_) json
    constructor
    · rintro ⟨value, _, rfl, hread, ⟨⟩⟩
      obtain ⟨items, rfl, hspells⟩ := (hproperties value).1 hread
      exact .object hspells
    · intro hspells
      cases hspells with
      | object hspells =>
        exact ⟨_, properties, rfl, (hproperties _).2 ⟨_, rfl, hspells⟩, rfl⟩
  | union members ih =>
    have hmembers := Shape.membersOf_iff fun member hm => ih member hm
    refine Shape.ofNode_iff_of_fields hd (fun values => ?_) json
    constructor
    · rintro ⟨value, _, rfl, hread, ⟨⟩⟩
      obtain ⟨items, rfl, hspells⟩ := (hmembers value).1 hread
      exact .union hspells
    · intro hspells
      cases hspells with
      | union hspells => exact ⟨_, members, rfl, (hmembers _).2 ⟨_, rfl, hspells⟩, rfl⟩
  | _ =>
    refine Shape.ofNode_iff_of_fields hd (fun values => ?_) json
    constructor
    · rintro ⟨rfl, -⟩
      constructor
    · intro hspells
      cases hspells
      exact ⟨rfl, rfl⟩

end Reading

end JsonShape
