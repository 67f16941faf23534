import JsonShape.Catalog.Format
import JsonShape.Proofs.Documents
import JsonShape.Proofs.Occurrences
import JsonShape.Proofs.Rereading

/-!
# Proofs: definitions written and read back

What is written for definitions spells them (`Dialect.spells_toJson`), so the reader finds them in
it again. Over the text in between nothing is lost either, as long as no literal is a double.
-/

namespace JsonShape

/-! ## Documents without doubles -/

namespace Json

theorem integral_pair {first second : String} {a b : Json} (ha : a.Integral) (hb : b.Integral) :
    (Json.object [(first, a), (second, b)]).Integral :=
  .object (List.forall_mem_cons.2 ⟨ha, List.forall_mem_singleton.2 hb⟩)

end Json

namespace Shape

variable {d : Dialect} {shape : Shape}

/-- Every number among the literals of a shape is an integer. -/
def IntegerLiterals (shape : Shape) : Prop :=
  ∀ n, Part (.literal (.number n)) shape → ∃ i, n.toInt? = some i

theorem integral_propertiesToJson {properties : List Property}
    (h : ∀ p ∈ properties, (p.shape.toJson d).Integral) :
    ∀ item ∈ propertiesToJson d properties, item.Integral := by
  induction properties with
  | nil => exact List.forall_mem_nil _
  | cons p rest ih =>
    obtain ⟨hp, hrest⟩ := List.forall_mem_cons.1 h
    obtain ⟨name, shape, required⟩ := p
    refine List.forall_mem_cons.2 ⟨.object ?_, ih hrest⟩
    split <;> simp only [List.forall_mem_cons]
    · exact ⟨.string _, .bool _, hp, List.forall_mem_nil _⟩
    · exact ⟨.string _, hp, .bool _, List.forall_mem_nil _⟩

theorem integral_membersToJson {members : List Shape}
    (h : ∀ member ∈ members, (member.toJson d).Integral) :
    ∀ item ∈ membersToJson d members, item.Integral := by
  induction members with
  | nil => exact List.forall_mem_nil _
  | cons member rest ih =>
    obtain ⟨hmember, hrest⟩ := List.forall_mem_cons.1 h
    exact List.forall_mem_cons.2 ⟨hmember, ih hrest⟩

theorem integral_toJson_of_part {piece : Shape} (h : shape.IntegerLiterals)
    (hpiece : piece.Part shape) : (piece.toJson d).Integral := by
  induction piece with
  | reference name => exact Json.integral_pair (.string _) (.string _)
  | array element ih => exact Json.integral_pair (.string _) (ih hpiece.element)
  | literal literal =>
    refine Json.integral_pair (.string _) ?_
    cases literal with
    | bool b => exact .bool b
    | number n => exact .number (h n hpiece)
    | string s => exact .string s
  | object properties ih =>
    have hproperties : ∀ p ∈ properties, (p.shape.toJson d).Integral := by
      intro p hp
      exact ih p hp (hpiece.property hp)
    exact Json.integral_pair (.string _) (.array (integral_propertiesToJson hproperties))
  | union members ih =>
    have hmembers : ∀ member ∈ members, (member.toJson d).Integral := by
      intro member hm
      exact ih member hm (hpiece.member hm)
    exact Json.integral_pair (.string _) (.array (integral_membersToJson hmembers))
  | _ => exact .object (List.forall_mem_singleton.2 (.string _))

theorem IntegerLiterals.integral_toJson (h : shape.IntegerLiterals) (d : Dialect) :
    (shape.toJson d).Integral :=
  integral_toJson_of_part h (.whole shape)

end Shape

/-! ## Written definitions -/

namespace Definitions

variable {definitions : Definitions}

theorem spells_definitionToJson (numbered : Bool) (d : Definition) :
    d.toJson.SpellsDefinition numbered d :=
  .object rfl rfl (Dialect.spells_toJson Dialect.unambiguous_definition numbered false d.shape)

/-- What is written for definitions spells them. -/
theorem spells_toJson (numbered : Bool) (definitions : Definitions) :
    definitions.toJson.SpellsDefinitions numbered definitions := by
  obtain ⟨version, types⟩ := definitions
  have htypes : List.Forall₂ (Json.SpellsDefinition numbered) (types.map Definition.toJson) types := by
    rw [List.forall₂_map_left_iff]
    exact List.forall₂_same.2 fun d _ => spells_definitionToJson numbered d
  cases version with
  | none => exact .object .absent (.listed htypes)
  | some v => exact .object (.stated v) (.listed htypes)

theorem integral_toJson (h : ∀ d ∈ definitions.types, d.shape.IntegerLiterals) :
    definitions.toJson.Integral := by
  have htypes : (typesToJson definitions.types).Integral := by
    refine .array (List.forall_mem_map.2 fun d hd => ?_)
    exact Json.integral_pair (.string _) ((h d hd).integral_toJson _)
  obtain ⟨version, types⟩ := definitions
  cases version with
  | none => exact .object (List.forall_mem_singleton.2 htypes)
  | some v => exact Json.integral_pair (.string v) htypes

theorem covers_definitionToJson (d : Definition) : Definition.interest.Covers d.toJson :=
  Interest.covers_record
    (List.forall_mem_cons.2 ⟨⟨_, rfl, .whole _⟩, List.forall_mem_singleton.2 ⟨_, rfl, .whole _⟩⟩)

theorem covers_toJson (definitions : Definitions) : interest.Covers definitions.toJson := by
  obtain ⟨version, types⟩ := definitions
  have htypes : (Interest.listOf Definition.interest).Covers (typesToJson types) :=
    .listOf (List.forall_mem_map.2 fun d _ => covers_definitionToJson d)
  cases version with
  | none => exact Interest.covers_record (List.forall_mem_singleton.2 ⟨_, rfl, htypes⟩)
  | some v =>
    exact Interest.covers_record
      (List.forall_mem_cons.2 ⟨⟨_, rfl, .whole _⟩, List.forall_mem_singleton.2 ⟨_, rfl, htypes⟩⟩)

/-- Definitions are read back from what is printed of them. -/
theorem ofJsonText_compact (h : ∀ d ∈ definitions.types, d.shape.IntegerLiterals)
    (hdepth : definitions.toJson.depth ≤ Json.maxDepth) :
    ofJsonText (Symbol.ofString definitions.toJson.compact) = .ok definitions := by
  rw [ofJsonText, Json.decodeText_compact (integral_toJson h) (covers_toJson definitions) hdepth,
    ofNode_iff_spells]
  exact spells_toJson true definitions

theorem ofJsonText_pretty (h : ∀ d ∈ definitions.types, d.shape.IntegerLiterals)
    (hdepth : definitions.toJson.depth ≤ Json.maxDepth) :
    ofJsonText (Symbol.ofString definitions.toJson.pretty) = .ok definitions := by
  rw [ofJsonText, Json.decodeText_pretty (integral_toJson h) (covers_toJson definitions) hdepth,
    ofNode_iff_spells]
  exact spells_toJson true definitions

end Definitions

/-! ## Catalogs -/

theorem firstOffence?_eq_none {seen names : List String}
    (hidentifiers : ∀ name ∈ names, isIdentifier name = true) (hdistinct : names.Nodup)
    (hfresh : ∀ name ∈ names, name ∉ seen) : firstOffence? seen names = none := by
  induction names generalizing seen with
  | nil => rfl
  | cons name rest ih =>
    obtain ⟨hidentifier, hidentifiers⟩ := List.forall_mem_cons.1 hidentifiers
    obtain ⟨hname, hdistinct⟩ := List.nodup_cons.1 hdistinct
    obtain ⟨hnew, hfresh⟩ := List.forall_mem_cons.1 hfresh
    have hrest : ∀ other ∈ rest, other ∉ name :: seen := by
      intro other ho hmem
      rcases List.mem_cons.1 hmem with rfl | hmem
      · exact hname ho
      · exact hfresh other ho hmem
    rw [firstOffence?, hidentifier, if_neg hnew]
    exact ih hidentifiers hdistinct hrest

theorem Catalog.ofDefinitions_eq_ok {definitions : Definitions}
    (h : firstOffence? [] definitions.names = none) (source : Source) :
    ofDefinitions definitions source = .ok ⟨definitions, source, h⟩ := by
  rw [ofDefinitions]
  split
  · rfl
  · next hsome =>
    rw [h] at hsome
    cases hsome

/-- Definitions are read back from the text that is printed of them, compact or pretty. If their
names are distinct identifiers, the text also makes a catalog, with the checksum that a catalog of
the definitions has from any other source. -/
theorem Definitions.ofJsonText_toJson {definitions : Definitions}
    (hintegers : ∀ d ∈ definitions.types, d.shape.IntegerLiterals)
    (hdepth : definitions.toJson.depth ≤ 127) {text : String}
    (htext : text = definitions.toJson.compact ∨ text = definitions.toJson.pretty) :
    ofJsonText (Symbol.ofString text) = .ok definitions ∧
      (definitions.names.Nodup → (∀ name ∈ definitions.names, isIdentifier name = true) →
        ∃ catalog, Catalog.ofText .json text = .ok catalog ∧ catalog.definitions = definitions ∧
          ∀ source, ∃ original, Catalog.ofDefinitions definitions source = .ok original ∧
            catalog.checksum = original.checksum) := by
  have hread : ofJsonText (Symbol.ofString text) = .ok definitions := by
    rcases htext with rfl | rfl
    · exact ofJsonText_compact hintegers hdepth
    · exact ofJsonText_pretty hintegers hdepth
  refine ⟨hread, fun hdistinct hidentifiers => ?_⟩
  have hnames : firstOffence? [] definitions.names = none :=
    firstOffence?_eq_none hidentifiers hdistinct fun _ _ => List.not_mem_nil
  refine ⟨⟨definitions, .inline, hnames⟩, ?_, rfl, fun source => ?_⟩
  · rw [Catalog.ofText, Format.definitions, hread]
    exact Catalog.ofDefinitions_eq_ok hnames .inline
  · exact ⟨_, Catalog.ofDefinitions_eq_ok hnames source, rfl⟩

/-- A die shows a six or a text, or lies on another die. -/
def Definition.die : Definition :=
  ⟨"Die", .union [.literal (.number (.natural ⟨6, by decide⟩)), .literal (.string "\"é\n"),
    .object [⟨"on top", .array (.alias "Die"), false⟩]]⟩

/-- Definitions with an integer and an escaped text. -/
def Definitions.dice : Definitions := ⟨some "1.0.0", [.die]⟩

/-- What `Die` is made of. -/
def Shape.dieParts : List Shape :=
  [Definition.die.shape, .literal (.number (.natural ⟨6, by decide⟩)), .literal (.string "\"é\n"),
    .object [⟨"on top", .array (.alias "Die"), false⟩], .array (.alias "Die"), .alias "Die"]

theorem Definitions.closed_dieParts : Definitions.dice.Closed (· ∈ Shape.dieParts) :=
  closed_of_next (by
    simp [Shape.dieParts, Definition.die, next, dice, get?])

theorem Definitions.integerLiterals_dice :
    ∀ d ∈ Definitions.dice.types, d.shape.IntegerLiterals := by
  refine List.forall_mem_singleton.2 fun n hpart => ?_
  have hmem := closed_dieParts.of_part hpart List.mem_cons_self
  simp only [Shape.dieParts, Definition.die, List.mem_cons, Shape.literal.injEq,
    Literal.number.injEq, reduceCtorEq, List.not_mem_nil, or_false, false_or] at hmem
  subst hmem
  exact ⟨6, rfl⟩

/-- The pretty text of the dice makes a catalog of them. -/
theorem Definitions.dice_cataloged :
    (∀ d ∈ Definitions.dice.types, d.shape.IntegerLiterals) ∧ Definitions.dice.toJson.depth ≤ 127 ∧
      ∃ catalog, Catalog.ofText .json Definitions.dice.toJson.pretty = .ok catalog ∧
        catalog.definitions = .dice := by
  have hdepth : Definitions.dice.toJson.depth ≤ 127 := by decide
  obtain ⟨-, hcatalog⟩ := ofJsonText_toJson integerLiterals_dice hdepth (.inr rfl)
  obtain ⟨catalog, hread, hsame, -⟩ := hcatalog (by decide) (by decide)
  exact ⟨integerLiterals_dice, hdepth, catalog, hread, hsame⟩

end JsonShape
