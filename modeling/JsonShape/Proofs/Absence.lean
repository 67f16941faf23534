import JsonShape.Proofs.Edits

/-!
# Proofs: optional properties

An optional property may be missing, and so may a required one whose shape admits absence. So an
optional property can be made required if absence is added to its shape as the last member of a
union: where the property is present the new member accepts nothing, and where it is missing it
accepts.

The new union stands under a property, so no name is exposed that was not, and the definitions can
still be compiled.
-/

namespace JsonShape

variable {ds ds' : Definitions} {old new : Shape} {lenient : Bool}

/-- An optional property becomes required, and absence is added to its shape. -/
inductive Shape.Admits : Shape → Shape → Prop where
  | absence (before : List Property) (name : String) (shape : Shape) (after : List Property) :
      Admits (.object (before ++ ⟨name, shape, false⟩ :: after))
        (.object (before ++ ⟨name, .union [shape, .undefined], true⟩ :: after))

/-! ## A shape or absence -/

/-- A shape with absence added to it accepts what it did, and absence. -/
theorem Conforms.or_undefined_iff {shape : Shape} {x : Option Json} :
    Conforms ds lenient (.union [shape, .undefined]) x ↔
      Conforms ds lenient shape x ∨ x = none := by
  rw [Conforms.union_iff]
  constructor
  · rintro ⟨member, hm, hc⟩
    rcases List.mem_cons.1 hm with rfl | hm
    · exact .inl hc
    · rw [List.mem_singleton.1 hm] at hc
      cases hc
      exact .inr rfl
  · rintro (hc | rfl)
    · exact ⟨shape, List.mem_cons_self, hc⟩
    · exact ⟨.undefined, List.mem_cons_of_mem _ List.mem_cons_self, .undefined⟩

theorem Projects.of_or_undefined {shape : Shape} {value rebuilt : Json}
    (h : Projects ds (.union [shape, .undefined]) value rebuilt) :
    Projects ds shape value rebuilt := by
  cases h with
  | leaf hleaf => cases hleaf
  | @union _ before after member _ _ hsplit _ hmember hprojects =>
    have hm : member ∈ [shape, .undefined] :=
      hsplit ▸ List.mem_append_right before List.mem_cons_self
    rcases List.mem_cons.1 hm with rfl | hm
    · exact hprojects
    · -- the added member does not accept a value
      rw [List.mem_singleton.1 hm] at hmember
      cases hmember

/-! ## One property -/

namespace Shape.Admits

theorem map_name (before : List Property) (name : String) (shape : Shape) (after : List Property) :
    (before ++ ⟨name, .union [shape, .undefined], true⟩ :: after).map Property.name =
      (before ++ ⟨name, shape, false⟩ :: after).map Property.name := by
  simp

theorem wellFormed {names : List String} (h : old.Admits new) (hw : old.WellFormed names) :
    new.WellFormed names := by
  cases h with
  | absence before name shape after =>
    cases hw with
    | object hd hshapes =>
      simp only [List.forall_mem_append, List.forall_mem_cons] at hshapes
      obtain ⟨hbefore, hshape, hafter⟩ := hshapes
      refine .object (map_name before name shape after ▸ hd) ?_
      simp only [List.forall_mem_append, List.forall_mem_cons]
      refine ⟨hbefore, .union ?_, hafter⟩
      exact List.forall_mem_cons.2 ⟨hshape, List.forall_mem_singleton.2 .undefined⟩

theorem conforms_iff (h : old.Admits new) (x : Option Json) :
    Conforms ds lenient old x ↔ Conforms ds lenient new x := by
  cases h with
  | absence before name shape after =>
    rw [Conforms.object_iff, Conforms.object_iff, map_name]
    refine exists_congr fun entries => and_congr_right fun _ => and_congr_right fun _ => ?_
    simp only [List.forall_mem_append, List.forall_mem_cons, Bool.true_or, Bool.false_or,
      forall_true_left, Conforms.or_undefined_iff]
    -- the property is looked at in any case now, but absence is accepted
    cases Json.find? name entries <;> simp

theorem projects (h : old.Admits new) {value rebuilt : Json}
    (hnew : Projects ds new value rebuilt) : Projects ds old value rebuilt := by
  cases h with
  | absence before name shape after =>
    cases hnew with
    | leaf hleaf => cases hleaf
    | object hsorted hkeys hvalues =>
      simp only [List.forall_mem_append, List.forall_mem_cons] at hvalues
      obtain ⟨hbefore, hvalue, hafter⟩ := hvalues
      have hshape : ∀ old new, Json.find? name _ = some old → Json.find? name _ = some new →
          Projects ds shape old new := fun old new hold hfound =>
        (hvalue old new hold hfound).of_or_undefined
      refine .object hsorted (map_name before name shape after ▸ hkeys) ?_
      simp only [List.forall_mem_append, List.forall_mem_cons]
      exact ⟨hbefore, hshape, hafter⟩

theorem harmless : Shape.Harmless Shape.Admits where
  conforms_iff h := h.conforms_iff
  projects h _ _ := h.projects

end Shape.Admits

/-! ## Definitions -/

theorem Definitions.WellFormed.admitted (hw : ds.WellFormed) (he : ds.Edited Shape.Admits ds') :
    ds'.WellFormed := by
  refine hw.edited he (fun _ _ h => h.wellFormed) (fun _ h => ?_) fun _ _ _ h hexposed => ?_
  · cases h
  · -- an object exposes nothing
    cases h
    cases hexposed

/-- Optional properties may as well be required if absence is added to their shapes. The definitions
are compiled as before, the same names are bound, and each accepts and creates what it did. -/
theorem Registry.admitting_preserves {ds ds' : Definitions} {r : Registry}
    (hr : Registry.compile ds = .ok r) (he : ds.Edited Shape.Admits ds') :
    ∃ r', Registry.compile ds' = .ok r' ∧
      ∀ name, Option.Rel Binding.Alike (r.get? name) (r'.get? name) := by
  obtain ⟨hw, rfl⟩ := Registry.compile_eq_ok hr
  have hw' := hw.admitted he
  exact ⟨ds'.link, Registry.compile_eq_ok_iff.2 ⟨hw', rfl⟩,
    he.alike_of_harmless Shape.Admits.harmless hw hw'⟩

/-- The forest in which every tree is asked for its children, and may have none. -/
def Definitions.askingForest : Definitions :=
  ⟨none, [⟨"Tree", .object [⟨"value", .number, true⟩,
    ⟨"children", .union [.alias "Forest", .undefined], true⟩]⟩, .forest, .loose]⟩

theorem Definitions.edited_askingForest :
    Definitions.forest.Edited Shape.Admits .askingForest := by
  have htree : Definition.tree.shape.Admits (.object [⟨"value", .number, true⟩,
      ⟨"children", .union [.alias "Forest", .undefined], true⟩]) :=
    .absence [⟨"value", .number, true⟩] "children" (.alias "Forest") []
  exact .cons ⟨rfl, .replaced htree⟩ (.cons ⟨rfl, .refl _⟩ (.cons ⟨rfl, .refl _⟩ .nil))

/-- The tame tree, in which one tree has children and the other has none, is created of the wild one
as before, and is strictly valid. -/
theorem Registry.forest_admitted :
    Registry.compile .forest = .ok Definitions.forest.link ∧
      Definitions.forest.Edited Shape.Admits .askingForest ∧
      ∃ r', Registry.compile .askingForest = .ok r' ∧ ∃ b', r'.get? "Tree" = some b' ∧
        b'.create .wildTree = .ok .tameTree ∧ b'.validate false .tameTree = .ok () := by
  have hr : Registry.compile .forest = .ok Definitions.forest.link := rfl
  obtain ⟨r', hcompiled, hbound⟩ :=
    Registry.admitting_preserves hr Definitions.edited_askingForest
  have hb : Definitions.forest.link.get? "Tree" = some (Definitions.forest.binding 0 .tree) := rfl
  have hcreate : (Definitions.forest.binding 0 .tree).create .wildTree = .ok .tameTree := rfl
  have hvalid : (Definitions.forest.binding 0 .tree).validate false .tameTree = .ok () := rfl
  have htree := hbound "Tree"
  rw [hb] at htree
  generalize hb' : r'.get? "Tree" = found at htree
  cases htree with
  | some halike =>
    have hcreate' := (halike.creates _ _).1 hcreate
    have hvalid' := (halike.accepts _ _).1 hvalid
    exact ⟨hr, Definitions.edited_askingForest, r', hcompiled, _, hb', hcreate', hvalid'⟩

end JsonShape
