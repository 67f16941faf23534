import JsonShape.Artifact.Document
import JsonShape.Proofs.Compilation
import JsonShape.Proofs.Encoding

/-!
# Proofs: artifacts written and read back

An artifact holds schemas, and a schema holds neither more nor less than the shape it is made of, so
what is known of shapes carries over. The entries of an artifact that say nothing are left out. They
are read one after the other in the order in which they are written, and each changes what is known
by what it says.
-/

namespace JsonShape

/-! ## Schemas and shapes -/

namespace Schema

theorem propertyShapes_ofProperties {properties : List Property}
    (h : ∀ p ∈ properties, (ofShape p.shape).shape = p.shape) :
    propertyShapes (ofProperties properties) = properties := by
  induction properties with
  | nil => rfl
  | cons p rest ih =>
    obtain ⟨hp, hrest⟩ := List.forall_mem_cons.1 h
    obtain ⟨name, shape, required⟩ := p
    have hp : (ofShape shape).shape = shape := hp
    rw [ofProperties, propertyShapes, hp, ih hrest]

theorem shapes_ofShapes {members : List Shape}
    (h : ∀ member ∈ members, (ofShape member).shape = member) :
    shapes (ofShapes members) = members := by
  induction members with
  | nil => rfl
  | cons member rest ih =>
    obtain ⟨hmember, hrest⟩ := List.forall_mem_cons.1 h
    rw [ofShapes, shapes, hmember, ih hrest]

/-- The shape of a schema is the shape it was made of. -/
theorem shape_ofShape (s : Shape) : (ofShape s).shape = s := by
  induction s with
  | array element ih => rw [ofShape, shape, ih]
  | object properties ih => rw [ofShape, shape, propertyShapes_ofProperties ih]
  | union members ih => rw [ofShape, shape, shapes_ofShapes ih]
  | _ => rfl

theorem ofShape_injective : Function.Injective ofShape :=
  Function.LeftInverse.injective shape_ofShape

mutual

/-- Every schema is the schema of its shape. -/
theorem ofShape_shape : ∀ schema : Schema, ofShape schema.shape = schema
  | .array items => by rw [shape, ofShape, ofShape_shape items]
  | .object properties => by rw [shape, ofShape, ofProperties_propertyShapes properties]
  | .union members => by rw [shape, ofShape, ofShapes_shapes members]
  | .ref _ | .any | .boolean | .const _ | .null | .number | .string | .undefined => rfl

theorem ofProperties_propertyShapes :
    ∀ properties : List SchemaProperty, ofProperties (propertyShapes properties) = properties
  | [] => rfl
  | ⟨name, required, schema⟩ :: rest => by
    rw [propertyShapes, ofProperties, ofShape_shape schema, ofProperties_propertyShapes rest]

theorem ofShapes_shapes : ∀ members : List Schema, ofShapes (shapes members) = members
  | [] => rfl
  | member :: rest => by rw [shapes, ofShapes, ofShape_shape member, ofShapes_shapes rest]

end

/-- What is written for a schema is read as that schema. -/
theorem ofNode_toJson (outermost : Bool) (schema : Schema) :
    ofNode outermost (.ofJson .whole schema.toJson) = .ok schema := by
  have hread : Shape.ofNode .schema outermost (.ofJson .whole schema.toJson) = .ok schema.shape :=
    (Shape.ofNode_iff_spells Dialect.unambiguous_schema _).2
      (Dialect.spells_toJson Dialect.unambiguous_schema true (!outermost) schema.shape)
  rw [ofNode, hread, ok_bind, ofShape_shape]
  rfl

end Schema

/-! ## Entries and artifacts -/

theorem ArtifactEntry.ofNode_toJson (entry : ArtifactEntry) :
    ofNode (.ofJson interest entry.toJson) = .ok entry := by
  obtain ⟨name, declaration, schema⟩ := entry
  have hschema : step ⟨some name, some declaration, none⟩ 2 (.ofJson .whole schema.toJson) =
      .ok ⟨some name, some declaration, some schema⟩ := by
    rw [step, fresh, ok_bind, schema.ofNode_toJson]
    · rfl
    · intro h
      cases h
    · intro h
      cases h
  have hfold : Node.foldEntries fields step {} (Node.ofEntries interest
      [("name", .string name), ("declaration", .string declaration), ("schema", schema.toJson)]) =
        .ok ⟨some name, some declaration, some schema⟩ := by
    refine (foldEntries_field rfl).2 ⟨_, rfl, ?_⟩
    refine (foldEntries_field rfl).2 ⟨_, rfl, ?_⟩
    exact (foldEntries_field rfl).2 ⟨_, hschema, rfl⟩
  rw [toJson, Node.ofJson, ofNode, hfold]
  rfl

namespace Artifact

theorem listOf_strings (texts : List String) :
    (Node.ofJson .whole (.array (texts.map .string))).listOf Node.string? = .ok texts := by
  rw [Node.ofJson_array, Node.listOf, mapM_ofJson_iff fun _ _ _ => Node.string?_ofJson,
    List.forall₂_map_left_iff]
  exact List.forall₂_same.2 fun _ _ => rfl

theorem listOf_entries (entries : List ArtifactEntry) :
    (Node.ofJson (.listOf ArtifactEntry.interest) (.array (entries.map ArtifactEntry.toJson))).listOf
      ArtifactEntry.ofNode = .ok entries := by
  rw [Node.ofJson, Interest.supply, Node.ofItems_each, Node.listOf, mapM_eq_ok_iff,
    List.forall₂_map_left_iff, List.forall₂_map_left_iff]
  exact List.forall₂_same.2 fun entry _ => entry.ofNode_toJson

/-- The entry for the header, if there is one. -/
def headerEntries : List String → List (String × Json)
  | [] => []
  | header => [("header", .array (header.map .string))]

/-- The entry for a fact, if it is known. -/
def factEntries (key : String) : Option String → List (String × Json)
  | none => []
  | some fact => [(key, .string fact)]

/-- The entries of an artifact as a document. -/
def entries (a : Artifact) : List (String × Json) :=
  ("format_version", .string a.version) :: (headerEntries a.header ++
    (factEntries "generated_at" a.generatedAt ++ (factEntries "source_hash" a.sourceHash ++
      [("types", .array (a.types.map ArtifactEntry.toJson))])))

theorem toJson_eq (a : Artifact) : a.toJson = .object a.entries := by
  obtain ⟨version, header, generatedAt, sourceHash, types⟩ := a
  cases header <;> cases generatedAt <;> cases sourceHash <;> rfl

section Steps

variable {known total : Partial} {rest : List (String × Json)}

theorem foldEntries_header (hnone : known.header = none) {header : List String}
    (h : Node.foldEntries fields step
      { known with header := if header.isEmpty then none else some header }
        (Node.ofEntries interest rest) = .ok total) :
    Node.foldEntries fields step known (Node.ofEntries interest (headerEntries header ++ rest)) =
      .ok total := by
  cases header with
  | nil =>
    obtain ⟨⟩ := known
    subst hnone
    exact h
  | cons first more =>
    refine (foldEntries_field rfl).2 ⟨_, ?_, h⟩
    rw [step, hnone, fresh, ok_bind, listOf_strings]
    rfl

/-- A fact that may be unknown changes what is known from `next none` to what it says. -/
theorem foldEntries_fact {key : String} {place : Nat} (hkey : fields.idxOf? key = some place)
    (hmember : interest.member key = some .whole) (next : Option String → Partial)
    (hstep : ∀ v, step (next none) place (.string v) = .ok (next (some v))) {fact : Option String}
    (h : Node.foldEntries fields step (next fact) (Node.ofEntries interest rest) = .ok total) :
    Node.foldEntries fields step (next none)
      (Node.ofEntries interest (factEntries key fact ++ rest)) = .ok total := by
  cases fact with
  | none => exact h
  | some v =>
    rw [factEntries, List.singleton_append, Node.ofEntries, hmember]
    exact (foldEntries_field hkey).2 ⟨_, hstep v, h⟩

theorem foldEntries_types (hnone : known.types = none) (types : List ArtifactEntry) :
    Node.foldEntries fields step known (Node.ofEntries interest
      [("types", .array (types.map ArtifactEntry.toJson))]) =
        .ok { known with types := some types } := by
  refine (foldEntries_field rfl).2 ⟨_, ?_, rfl⟩
  rw [step, hnone, fresh, ok_bind, listOf_entries]
  · rfl
  all_goals
    intro h
    cases h

end Steps

/-- What is written for an artifact is read as that artifact. -/
theorem ofNode_toJson (a : Artifact) : ofNode (.ofJson interest a.toJson) = .ok a := by
  have hgeneratedAt : fields.idxOf? "generated_at" = some 2 := rfl
  have hsourceHash : fields.idxOf? "source_hash" = some 3 := rfl
  rw [toJson_eq, Node.ofJson, ofNode, bind_eq_ok_iff]
  obtain ⟨version, header, generatedAt, sourceHash, types⟩ := a
  refine ⟨⟨some version, if header.isEmpty then none else some header, generatedAt.map some,
    sourceHash.map some, some types⟩, ?_, ?_⟩
  · refine (foldEntries_field rfl).2 ⟨_, rfl, ?_⟩
    refine foldEntries_header rfl ?_
    -- what is known of the header by now makes no difference to the entries after it
    generalize (if header.isEmpty then none else some header) = texts
    refine foldEntries_fact hgeneratedAt rfl
      (fun time => ⟨some version, texts, time.map some, none, none⟩) (fun _ => rfl) ?_
    refine foldEntries_fact hsourceHash rfl
      (fun hash => ⟨some version, texts, generatedAt.map some, hash.map some, none⟩)
      (fun _ => rfl) ?_
    exact foldEntries_types rfl types
  · cases header <;> cases generatedAt <;> cases sourceHash <;> rfl

/-! ## Printed artifacts -/

/-- What holds of the five entries an artifact may have holds of those it has. -/
theorem forall_mem_entries {a : Artifact} {P : String × Json → Prop}
    (hversion : P ("format_version", .string a.version))
    (hheader : P ("header", .array (a.header.map .string)))
    (hfacts : ∀ fact, P ("generated_at", .string fact) ∧ P ("source_hash", .string fact))
    (htypes : P ("types", .array (a.types.map ArtifactEntry.toJson))) :
    ∀ entry ∈ a.entries, P entry := by
  obtain ⟨version, header, generatedAt, sourceHash, types⟩ := a
  simp only [entries, List.forall_mem_cons, List.forall_mem_append]
  refine ⟨hversion, ?_, ?_, ?_, htypes, List.forall_mem_nil P⟩
  · cases header with
    | nil => exact List.forall_mem_nil P
    | cons => exact List.forall_mem_singleton.2 hheader
  · cases generatedAt with
    | none => exact List.forall_mem_nil P
    | some time => exact List.forall_mem_singleton.2 (hfacts time).1
  · cases sourceHash with
    | none => exact List.forall_mem_nil P
    | some hash => exact List.forall_mem_singleton.2 (hfacts hash).2

variable {a : Artifact}

theorem integral_toJson (h : ∀ entry ∈ a.types, entry.schema.shape.IntegerLiterals) :
    a.toJson.Integral := by
  have htypes : ∀ item ∈ a.types.map ArtifactEntry.toJson, item.Integral := by
    refine List.forall_mem_map.2 fun entry hentry => .object ?_
    exact List.forall_mem_cons.2 ⟨.string _, List.forall_mem_cons.2
      ⟨.string _, List.forall_mem_singleton.2 ((h entry hentry).integral_toJson .schema)⟩⟩
  rw [toJson_eq]
  refine .object (forall_mem_entries (.string _) (.array ?_) ?_ (.array htypes))
  · exact List.forall_mem_map.2 fun _ _ => .string _
  · exact fun _ => ⟨.string _, .string _⟩

theorem covers_toJson (a : Artifact) : interest.Covers a.toJson := by
  have htypes : (Interest.listOf ArtifactEntry.interest).Covers
      (.array (a.types.map ArtifactEntry.toJson)) := by
    refine .listOf (List.forall_mem_map.2 fun entry _ => Interest.covers_record ?_)
    exact List.forall_mem_cons.2 ⟨⟨_, rfl, .whole _⟩, List.forall_mem_cons.2
      ⟨⟨_, rfl, .whole _⟩, List.forall_mem_singleton.2 ⟨_, rfl, .whole _⟩⟩⟩
  rw [toJson_eq]
  refine Interest.covers_record
    (forall_mem_entries ⟨_, rfl, .whole _⟩ ⟨_, rfl, .whole _⟩ ?_ ⟨_, rfl, htypes⟩)
  exact fun _ => ⟨⟨_, rfl, .whole _⟩, ⟨_, rfl, .whole _⟩⟩

/-- An artifact is read back from what is printed of it. -/
theorem ofJsonText_of_printed (h : ∀ entry ∈ a.types, entry.schema.shape.IntegerLiterals)
    (hdepth : a.toJson.depth ≤ Json.maxDepth) {text : String}
    (htext : text = a.toJson.compact ∨ text = a.toJson.pretty) :
    ofJsonText (Symbol.ofString text) = .ok a := by
  rcases htext with rfl | rfl
  · rw [ofJsonText, Json.decodeText_compact (integral_toJson h) (covers_toJson a) hdepth,
      ofNode_toJson]
  · rw [ofJsonText, Json.decodeText_pretty (integral_toJson h) (covers_toJson a) hdepth,
      ofNode_toJson]

end Artifact

/-! ## Artifacts of registries -/

/-- The entry that is published for a definition. -/
def Definition.published (d : Definition) : ArtifactEntry :=
  ⟨d.name, (Declaration.ofShape d.shape).render, .ofShape d.shape⟩

theorem Artifact.types_ofRegistry_link (ds : Definitions) :
    (ofRegistry ds.link).types = ds.types.map Definition.published := by
  refine List.ext_getElem ?_ fun i hi hi' => ?_
  · simp [ofRegistry, Registry.bindings, Definitions.link]
  · simp only [ofRegistry, Registry.bindings, Definitions.link, List.getElem_map,
      List.getElem_zipWith]
    rfl

/-- Different definitions are published by different documents. -/
theorem Definition.toJson_published_injective :
    Function.Injective fun d : Definition => d.published.toJson := by
  intro d d' h
  have h : d.published.toJson = d'.published.toJson := h
  have hread := d.published.ofNode_toJson
  rw [h, d'.published.ofNode_toJson] at hread
  have hentry : d'.published = d.published := Except.ok.inj hread
  have hname : d'.name = d.name := congrArg ArtifactEntry.name hentry
  have hshape : d'.shape = d.shape := Schema.ofShape_injective (congrArg ArtifactEntry.schema hentry)
  cases d
  cases d'
  cases hname
  cases hshape
  rfl

/-- Nothing is lost in an artifact of a registry, whatever is added about its making: it is read
back from the text that is printed of it, compact or pretty, and its entries are those of no other
definitions, since no two shapes have one schema. -/
theorem Registry.artifact_lossless {ds : Definitions} {r : Registry}
    (hr : Registry.compile ds = .ok r) :
    ((∀ d ∈ ds.types, d.shape.IntegerLiterals) →
      ∀ (header : List String) (generatedAt sourceHash : Option String) (a : Artifact),
        a = { Artifact.ofRegistry r with header, generatedAt, sourceHash } →
        a.toJson.depth ≤ 127 → ∀ text, text = a.toJson.compact ∨ text = a.toJson.pretty →
          Artifact.ofJsonText (Symbol.ofString text) = .ok a) ∧
      Function.Injective Schema.ofShape ∧
      ∀ ds' r', Registry.compile ds' = .ok r' →
        (Artifact.ofRegistry r').types.map ArtifactEntry.toJson =
          (Artifact.ofRegistry r).types.map ArtifactEntry.toJson → ds'.types = ds.types := by
  obtain ⟨-, rfl⟩ := Registry.compile_eq_ok hr
  refine ⟨?_, Schema.ofShape_injective, ?_⟩
  · rintro hintegers header generatedAt sourceHash a rfl hdepth text htext
    refine Artifact.ofJsonText_of_printed ?_ hdepth htext
    show ∀ entry ∈ (Artifact.ofRegistry ds.link).types, entry.schema.shape.IntegerLiterals
    rw [Artifact.types_ofRegistry_link, List.forall_mem_map]
    intro d hd
    rw [Definition.published, Schema.shape_ofShape]
    exact hintegers d hd
  · intro ds' r' hr' htypes
    obtain ⟨-, rfl⟩ := Registry.compile_eq_ok hr'
    rw [Artifact.types_ofRegistry_link, Artifact.types_ofRegistry_link, List.map_map,
      List.map_map] at htypes
    exact Definition.toJson_published_injective.list_map htypes

/-- The artifact of the dice, with a header and a time. -/
def Artifact.dice : Artifact :=
  { Artifact.ofRegistry Definitions.dice.link with
    header := ["two", "dice"], generatedAt := some "today", sourceHash := none }

/-- The artifact of the dice is read back from its pretty text. -/
theorem Registry.dice_published :
    Registry.compile .dice = .ok Definitions.dice.link ∧
      (∀ d ∈ Definitions.dice.types, d.shape.IntegerLiterals) ∧ Artifact.dice.toJson.depth ≤ 127 ∧
      Artifact.ofJsonText (Symbol.ofString Artifact.dice.toJson.pretty) = .ok .dice := by
  have hr : Registry.compile .dice = .ok Definitions.dice.link := rfl
  have hdepth : Artifact.dice.toJson.depth ≤ 127 := by decide +kernel
  obtain ⟨hread, -, -⟩ := Registry.artifact_lossless hr
  have hdice := hread Definitions.integerLiterals_dice ["two", "dice"] (some "today") none .dice rfl
    hdepth _ (.inr rfl)
  exact ⟨hr, Definitions.integerLiterals_dice, hdepth, hdice⟩

end JsonShape
