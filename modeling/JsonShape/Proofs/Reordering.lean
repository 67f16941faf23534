import JsonShape.Proofs.Edits

/-!
# Proofs: the order of properties

The properties of an object may be declared in any order. A check looks at each of them, and what is
created has its keys sorted. The order decides only which of several failures is reported: the first
one ends the check.

One edit may reorder the properties of any objects of which none lies inside another. So objects
inside objects are reordered by several edits, one after the other.
-/

namespace JsonShape

open Relation

variable {ds ds' : Definitions} {old new : Shape} {lenient : Bool}

/-- The properties of an object are reordered. -/
inductive Shape.Reorders : Shape → Shape → Prop where
  | properties {properties properties' : List Property} (h : properties.Perm properties') :
      Reorders (.object properties) (.object properties')

/-- Definitions that are made of others by reordering the properties of any objects in them, at any
depth. -/
def Definitions.Reordered : Definitions → Definitions → Prop :=
  ReflTransGen (Definitions.Edited Shape.Reorders)

/-! ## One object -/

namespace Shape.Reorders

theorem flip (h : old.Reorders new) : new.Reorders old := by
  cases h with
  | properties h => exact .properties h.symm

theorem wellFormed {names : List String} (h : old.Reorders new) (hw : old.WellFormed names) :
    new.WellFormed names := by
  cases h with
  | properties h =>
    cases hw with
    | object hd hshapes =>
      exact .object ((h.map Property.name).nodup hd) fun p hp => hshapes p (h.mem_iff.2 hp)

theorem conforms_iff (h : old.Reorders new) (x : Option Json) :
    Conforms ds lenient old x ↔ Conforms ds lenient new x := by
  cases h with
  | properties h =>
    simp only [Conforms.object_iff, h.mem_iff, (h.map Property.name).mem_iff]

theorem projects (h : old.Reorders new) {value rebuilt : Json}
    (hnew : Projects ds new value rebuilt) : Projects ds old value rebuilt := by
  cases h with
  | properties h =>
    cases hnew with
    | leaf hleaf => cases hleaf
    | object hsorted hkeys hvalues =>
      refine .object hsorted (fun key => ?_) fun p hp => hvalues p (h.mem_iff.1 hp)
      rw [hkeys, (h.map Property.name).mem_iff]

theorem harmless : Shape.Harmless Shape.Reorders where
  conforms_iff h := h.conforms_iff
  projects h _ _ := h.projects

end Shape.Reorders

/-! ## One edit -/

namespace Definitions.Edited

/-- The old order can be restored. -/
theorem restored (he : ds.Edited Shape.Reorders ds') : ds'.Edited Shape.Reorders ds := by
  have hsame : (fun new old => Shape.Reorders old new) = Shape.Reorders :=
    funext₂ fun _ _ => propext ⟨.flip, .flip⟩
  exact hsame ▸ he.flip

theorem wellFormed_of_reorders (he : ds.Edited Shape.Reorders ds') (hw : ds.WellFormed) :
    ds'.WellFormed := by
  refine hw.edited he (fun _ _ h => h.wellFormed) (fun _ h => ?_) fun _ _ _ h hexposed => ?_
  · cases h
  · -- an object exposes nothing
    cases h
    cases hexposed

end Definitions.Edited

/-! ## All edits -/

theorem Binding.Alike.trans {b b' b'' : Binding} (h : b.Alike b') (h' : b'.Alike b'') :
    b.Alike b'' where
  accepts lenient value := (h.accepts lenient value).trans (h'.accepts lenient value)
  creates value created := (h.creates value created).trans (h'.creates value created)

/-- Where names are bound alike in turn, they are bound alike. -/
theorem Binding.Alike.rel_trans {b b' b'' : Option Binding} (h : Option.Rel Alike b b')
    (h' : Option.Rel Alike b' b'') : Option.Rel Alike b b'' := by
  cases h with
  | none => exact h'
  | some h =>
    cases h' with
    | some h' => exact .some (h.trans h')

namespace Definitions

theorem Reordered.wellFormed_iff (h : ds.Reordered ds') : ds.WellFormed ↔ ds'.WellFormed := by
  induction h with
  | refl => rfl
  | tail _ hlast ih =>
    exact ih.trans ⟨hlast.wellFormed_of_reorders, hlast.restored.wellFormed_of_reorders⟩

theorem Reordered.alike (h : ds.Reordered ds') (hw : ds.WellFormed) (name : String) :
    Option.Rel Binding.Alike (ds.link.get? name) (ds'.link.get? name) := by
  induction h with
  | refl => exact (Edited.refl ds).alike_of_harmless Shape.Reorders.harmless hw hw name
  | @tail middle last hbefore hlast ih =>
    have hmiddle : middle.WellFormed := (Reordered.wellFormed_iff hbefore).1 hw
    have hstep := hlast.alike_of_harmless Shape.Reorders.harmless hmiddle
      (hlast.wellFormed_of_reorders hmiddle) name
    exact Binding.Alike.rel_trans ih hstep

end Definitions

/-- The order in which objects declare their properties is irrelevant. Definitions are compiled in
any order of properties or in none, the same names are bound, and each accepts the same values and
creates the same of them. -/
theorem Registry.reordering_preserves {ds ds' : Definitions} (h : ds.Reordered ds') :
    ((∃ r, Registry.compile ds = .ok r) ↔ ∃ r', Registry.compile ds' = .ok r') ∧
      ∀ r r', Registry.compile ds = .ok r → Registry.compile ds' = .ok r' →
        ∀ name, Option.Rel Binding.Alike (r.get? name) (r'.get? name) := by
  constructor
  · simp only [Registry.compile_eq_ok_iff, exists_and_left, exists_eq, and_true]
    exact h.wellFormed_iff
  · intro r r' hr hr' name
    obtain ⟨hw, rfl⟩ := Registry.compile_eq_ok hr
    obtain ⟨-, rfl⟩ := Registry.compile_eq_ok hr'
    exact h.alike hw name

/-- Trees that describe their children themselves. -/
def Definition.familyTree : Definition :=
  ⟨"Tree", .object [⟨"value", .number, true⟩, ⟨"children", .array (.object
    [⟨"value", .number, true⟩, ⟨"children", .alias "Forest", false⟩]), false⟩]⟩

/-- The same with the properties of both objects the other way round. -/
def Definition.turnedTree : Definition :=
  ⟨"Tree", .object [⟨"children", .array (.object
    [⟨"children", .alias "Forest", false⟩, ⟨"value", .number, true⟩]), false⟩,
    ⟨"value", .number, true⟩]⟩

/-- The outer object is turned first and then the inner one. -/
theorem Definitions.reordered_turnedTree :
    Definitions.Reordered ⟨none, [.familyTree, .forest]⟩ ⟨none, [.turnedTree, .forest]⟩ := by
  have houter : Definitions.Edited Shape.Reorders ⟨none, [.familyTree, .forest]⟩
      ⟨none, [⟨"Tree", .object [⟨"children", .array (.object [⟨"value", .number, true⟩,
        ⟨"children", .alias "Forest", false⟩]), false⟩, ⟨"value", .number, true⟩]⟩, .forest]⟩ :=
    .cons ⟨rfl, .replaced (.properties (.swap _ _ _))⟩ (.cons ⟨rfl, .refl _⟩ .nil)
  have hinner : Shape.Edited Shape.Reorders (.object [⟨"children", .array (.object
      [⟨"value", .number, true⟩, ⟨"children", .alias "Forest", false⟩]), false⟩,
      ⟨"value", .number, true⟩]) Definition.turnedTree.shape := by
    refine .object rfl (by simp) fun pair hpair => ?_
    rcases List.mem_cons.1 hpair with rfl | hpair
    · exact .array (.replaced (.properties (.swap _ _ _)))
    · rw [List.mem_singleton.1 hpair]
      exact .refl _
  exact .tail (.single houter) (.cons ⟨rfl, hinner⟩ (.cons ⟨rfl, .refl _⟩ .nil))

/-- The turned tree is compiled, and creates the tame tree of the wild one. -/
theorem Registry.tree_turned :
    Definitions.Reordered ⟨none, [.familyTree, .forest]⟩ ⟨none, [.turnedTree, .forest]⟩ ∧
      ∃ r', Registry.compile ⟨none, [.turnedTree, .forest]⟩ = .ok r' ∧
        ∃ b', r'.get? "Tree" = some b' ∧ b'.create .wildTree = .ok .tameTree := by
  have hr : Registry.compile ⟨none, [.familyTree, .forest]⟩ =
      .ok (Definitions.link ⟨none, [.familyTree, .forest]⟩) := rfl
  obtain ⟨hcompiled, halike⟩ := Registry.reordering_preserves Definitions.reordered_turnedTree
  obtain ⟨r', hr'⟩ := hcompiled.1 ⟨_, hr⟩
  have hb : (Definitions.link ⟨none, [.familyTree, .forest]⟩).get? "Tree" =
      some (Definitions.binding ⟨none, [.familyTree, .forest]⟩ 0 .familyTree) := rfl
  have hcreate : (Definitions.binding ⟨none, [.familyTree, .forest]⟩ 0 .familyTree).create
      .wildTree = .ok .tameTree := rfl
  have htree := halike _ _ hr hr' "Tree"
  rw [hb] at htree
  generalize hb' : r'.get? "Tree" = found at htree
  cases htree with
  | some halike =>
    have hcreate' := (halike.creates _ _).1 hcreate
    exact ⟨Definitions.reordered_turnedTree, r', hr', _, hb', hcreate'⟩

end JsonShape
