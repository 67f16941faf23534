import JsonShape.Proofs.Edits

/-!
# Proofs: references and the shapes they stand for

A reference means the shape of its name. So references may be replaced by these shapes, in any
number of places, and also in the shapes of the names themselves: the definitions can still be
compiled, and their names accept and create the same.

A name that is inlined into its own shape leaves no reference to the old shape behind: what the
remaining references lead to has been edited as well. Hence a derivation beside the old definitions
is followed to the places where the old shape of a name is entered, and there the new one is.
-/

namespace JsonShape

open Relation

variable {ds ds' : Definitions} {old new shape shape' : Shape} {lenient : Bool}

/-- A reference is replaced by the shape of its name. -/
inductive Definitions.Inlines (ds : Definitions) : Shape → Shape → Prop where
  | target {name : String} {shape : Shape} (hd : ds.get? name = some shape) :
      Inlines ds (.alias name) shape

/-! ## One replacement -/

namespace Definitions.Inlines

theorem wellFormed (hw : ds.WellFormed) (h : ds.Inlines old new) : new.WellFormed ds.names := by
  cases h with
  | target hd => exact hw.shapes _ (mem_of_get? hd)

/-- What the shape exposes is exposed by the definition of its name. -/
theorem exposed (h : ds.Inlines old new) {target : String} (htarget : new.Exposed target) :
    ∃ name, old.Exposed name ∧ ReflGen ds.Exposes name target := by
  cases h with
  | @target name _ hd =>
    exact ⟨name, .reference, .single ⟨_, mem_of_get? hd, rfl, htarget⟩⟩

theorem conforms_iff (h : ds.Inlines old new) (x : Option Json) :
    Conforms ds lenient old x ↔ Conforms ds lenient new x := by
  cases h with
  | target hd => exact Conforms.reference_iff hd

theorem projects (h : ds.Inlines old new) {value rebuilt : Json}
    (hprojects : Projects ds new value rebuilt) : Projects ds old value rebuilt := by
  cases h with
  | target hd => exact .reference hd hprojects

end Definitions.Inlines

/-- A leaf is not a reference, and so stays. -/
theorem Shape.Edited.eq_of_isLeaf (h : shape.Edited ds.Inlines shape')
    (hleaf : shape.isLeaf = true) : shape' = shape := by
  cases h with
  | replaced h =>
    cases h
    cases hleaf
  | leaf => rfl
  | _ => cases hleaf

/-- Definitions in which references are replaced can be compiled. -/
theorem Definitions.WellFormed.inlined (hw : ds.WellFormed) (he : ds.Edited ds.Inlines ds') :
    ds'.WellFormed := by
  refine hw.edited he (fun _ _ h _ => h.wellFormed hw) (fun _ h => ?_) fun _ _ _ h => h.exposed
  cases h

/-! ## All replacements -/

/-- What conforms beside the old definitions does so beside the new ones, to every shape that comes
from the old one by replacing references. -/
theorem Conforms.inlined (he : ds.Edited ds.Inlines ds') {x : Option Json}
    (h : Conforms ds lenient shape x) (hs : shape.Edited ds.Inlines shape') :
    Conforms ds' lenient shape' x := by
  induction h generalizing shape' with
  | literal h =>
    rw [hs.eq_of_isLeaf rfl]
    exact .literal h
  | array _ ih =>
    cases hs with
    | replaced hr => cases hr
    | leaf hleaf => cases hleaf
    | array hs => exact .array fun item hitem => ih item hitem hs
  | object hkeys _ _ ihpresent ihmissing =>
    cases hs with
    | replaced hr => cases hr
    | leaf hleaf => cases hleaf
    | object hlength hfields hs =>
      have hnames := map_eq_map_of_zip hlength fun pair hpair => (hfields pair hpair).1
      refine .object (hnames ▸ hkeys) (fun p' hp' value hfind => ?_)
        fun p' hp' hrequired hfind => ?_
      · obtain ⟨p, hp, hpair⟩ := exists_of_mem_right hlength hp'
        obtain ⟨hname, -⟩ := hfields _ hpair
        exact ihpresent p hp value (hname ▸ hfind) (hs _ hpair)
      · obtain ⟨p, hp, hpair⟩ := exists_of_mem_right hlength hp'
        obtain ⟨hname, hsame⟩ := hfields _ hpair
        exact ihmissing p hp (hsame ▸ hrequired) (hname ▸ hfind) (hs _ hpair)
  | union hm _ ih =>
    cases hs with
    | replaced hr => cases hr
    | leaf hleaf => cases hleaf
    | union hlength hs =>
      obtain ⟨member', hm', hpair⟩ := exists_of_mem_left hlength hm
      exact .union hm' (ih (hs _ hpair))
  | reference hd _ ih =>
    cases hs with
    | replaced hr =>
      cases hr with
      | target hd' =>
        rw [hd] at hd'
        cases hd'
        exact ih (.refl _)
    | leaf hleaf => cases hleaf
    | reference =>
      obtain ⟨shape', hd', hs⟩ := he.get?_eq_some hd
      exact .reference hd' (ih hs)
  | _ =>
    rw [hs.eq_of_isLeaf rfl]
    constructor

namespace Definitions.Edited

theorem conforms_iff (he : ds.Edited ds.Inlines ds') (hs : shape.Edited ds.Inlines shape')
    (x : Option Json) : Conforms ds lenient shape x ↔ Conforms ds' lenient shape' x := by
  refine ⟨fun h => h.inlined he hs, fun h => ?_⟩
  -- the names of the new definitions accept no more than the old ones
  have hbeside : Conforms ds lenient shape' x := by
    refine h.redefined fun name new hnew => ?_
    obtain ⟨old, hold, hedited⟩ := he.flip.get?_eq_some hnew
    refine ⟨old, hold, fun x hc => ?_⟩
    exact (hedited.flip.conforms_iff (fun _ _ hr => hr.conforms_iff) x).2 hc
  exact (hs.conforms_iff (fun _ _ hr => hr.conforms_iff) x).2 hbeside

theorem projects (he : ds.Edited ds.Inlines ds') (hs : shape.Edited ds.Inlines shape')
    {value rebuilt : Json} (h : Projects ds' shape' value rebuilt) :
    Projects ds shape value rebuilt := by
  have hold : ∀ {old new : Shape}, old.Edited ds.Inlines new → ∀ v w, Projects ds new v w →
      Projects ds old v w := fun hedited _ _ h =>
    h.edited (fun _ _ hr => hr.conforms_iff) (fun _ _ hr _ _ => hr.projects) hedited
  refine hold hs _ _ (h.redefined (fun shape x => (he.conforms_iff (.refl shape) x).symm) ?_)
  intro name new hnew
  obtain ⟨old, hget, hedited⟩ := he.flip.get?_eq_some hnew
  exact ⟨old, hget, hold hedited.flip⟩

end Definitions.Edited

/-- Replacing references by the shapes that they stand for preserves meaning. The definitions are
compiled as before, the same names are bound, and each accepts and creates what it did. -/
theorem Registry.inlining_preserves {ds ds' : Definitions} {r : Registry}
    (hr : Registry.compile ds = .ok r) (he : ds.Edited ds.Inlines ds') :
    ∃ r', Registry.compile ds' = .ok r' ∧
      ∀ name, Option.Rel Binding.Alike (r.get? name) (r'.get? name) := by
  obtain ⟨hw, rfl⟩ := Registry.compile_eq_ok hr
  have hw' := hw.inlined he
  refine ⟨ds'.link, Registry.compile_eq_ok_iff.2 ⟨hw', rfl⟩, fun name => ?_⟩
  exact he.alike hw hw' (fun _ _ _ hs => he.conforms_iff hs) (fun _ _ hs _ _ => he.projects hs) name

/-- The forest with the shape of forests inside that of trees, and with a shape inside itself. -/
def Definitions.inlinedForest : Definitions :=
  ⟨none, [⟨"Tree", .object [⟨"value", .number, true⟩, ⟨"children", .array (.alias "Tree"), false⟩]⟩,
    .forest, ⟨"Loose", .union [.any, .union [.any, .alias "Loose"]]⟩]⟩

theorem Definitions.edited_inlinedForest :
    Definitions.forest.Edited Definitions.forest.Inlines .inlinedForest := by
  have htree : Definition.tree.shape.Edited Definitions.forest.Inlines
      (.object [⟨"value", .number, true⟩, ⟨"children", .array (.alias "Tree"), false⟩]) := by
    refine .object rfl (by simp) fun pair hpair => ?_
    rcases List.mem_cons.1 hpair with rfl | hpair
    · exact .refl _
    · rw [List.mem_singleton.1 hpair]
      exact .replaced (.target rfl)
  have hloose : Definition.loose.shape.Edited Definitions.forest.Inlines
      (.union [.any, .union [.any, .alias "Loose"]]) := by
    refine .union rfl fun pair hpair => ?_
    rcases List.mem_cons.1 hpair with rfl | hpair
    · exact .refl _
    · rw [List.mem_singleton.1 hpair]
      exact .replaced (.target rfl)
  exact .cons ⟨rfl, htree⟩ (.cons ⟨rfl, .refl _⟩ (.cons ⟨rfl, hloose⟩ .nil))

/-- The forest is compiled with both replacements, and `Tree` still creates the tame tree of the
wild one. -/
theorem Registry.forest_inlined :
    Registry.compile .forest = .ok Definitions.forest.link ∧
      Definitions.forest.Edited Definitions.forest.Inlines .inlinedForest ∧
      ∃ r', Registry.compile .inlinedForest = .ok r' ∧
        ∃ b', r'.get? "Tree" = some b' ∧ b'.create .wildTree = .ok .tameTree := by
  have hr : Registry.compile .forest = .ok Definitions.forest.link := rfl
  obtain ⟨r', hcompiled, hbound⟩ := Registry.inlining_preserves hr Definitions.edited_inlinedForest
  have hb : Definitions.forest.link.get? "Tree" = some (Definitions.forest.binding 0 .tree) := rfl
  have hcreate : (Definitions.forest.binding 0 .tree).create .wildTree = .ok .tameTree := rfl
  have htree := hbound "Tree"
  rw [hb] at htree
  generalize hb' : r'.get? "Tree" = found at htree
  cases htree with
  | some halike =>
    have hcreate' := (halike.creates _ _).1 hcreate
    exact ⟨hr, Definitions.edited_inlinedForest, r', hcompiled, _, hb', hcreate'⟩

end JsonShape
