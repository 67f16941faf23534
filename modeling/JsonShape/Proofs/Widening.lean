import JsonShape.Proofs.Creation
import JsonShape.Proofs.Edits

/-!
# Proofs: widening

Definitions are widened by making required properties optional, by adding members to unions, and by
replacing shapes by `any`. Whatever was accepted before is accepted afterwards, and so it is when
undeclared keys begin to be tolerated.

The definitions on the way from the first to the last need not make sense: a member that is added
may refer to a name that nobody defines and be replaced by `any` later. So the steps are followed in
terms of conformance, which asks nothing of the definitions, and only the two ends are compiled.
-/

namespace JsonShape

open Relation

variable {ds ds' : Definitions} {lenient lenient' : Bool}

/-- One place of a shape is widened. -/
inductive Shape.Widens : Shape → Shape → Prop where
  /-- A required property becomes optional. -/
  | optional (before : List Property) (name : String) (shape : Shape) (after : List Property) :
      Widens (.object (before ++ ⟨name, shape, true⟩ :: after))
        (.object (before ++ ⟨name, shape, false⟩ :: after))
  /-- A member is added to a union, in front of all others, behind them, or between two. -/
  | member (before : List Shape) (added : Shape) (after : List Shape) :
      Widens (.union (before ++ after)) (.union (before ++ added :: after))
  | anything (shape : Shape) : Widens shape .any

/-- Definitions that are made of others by widening them in any number of places, one after the
other or at once. -/
def Definitions.Widened : Definitions → Definitions → Prop :=
  ReflTransGen (Definitions.Edited Shape.Widens)

/-! ## One edit -/

/-- A place that is widened keeps what conforms to it. -/
theorem Conforms.widens {old new : Shape} (h : old.Widens new) {x : Option Json}
    (hc : Conforms ds lenient old x) : Conforms ds lenient new x := by
  cases h with
  | optional before name shape after =>
    obtain ⟨entries, rfl, hkeys, hproperties⟩ := Conforms.object_iff.1 hc
    have hnames : (before ++ ⟨name, shape, true⟩ :: after : List Property).map Property.name =
        (before ++ ⟨name, shape, false⟩ :: after).map Property.name := by simp
    refine Conforms.object_iff.2 ⟨entries, rfl, hnames ▸ hkeys, fun p hp hlook => ?_⟩
    rcases List.mem_append.1 hp with hp | hp
    · exact hproperties p (List.mem_append_left _ hp) hlook
    · rcases List.mem_cons.1 hp with rfl | hp
      · -- an optional property is looked at less often than a required one
        exact hproperties ⟨name, shape, true⟩ (List.mem_append_right _ List.mem_cons_self) rfl
      · exact hproperties p (List.mem_append_right _ (List.mem_cons_of_mem _ hp)) hlook
  | member before added after =>
    obtain ⟨member, hm, hc⟩ := Conforms.union_iff.1 hc
    refine .union ?_ hc
    rcases List.mem_append.1 hm with hm | hm
    · exact List.mem_append_left _ hm
    · exact List.mem_append_right _ (List.mem_cons_of_mem _ hm)
  | anything => exact .any x

/-! ## All edits -/

/-- After any number of edits a name is bound to a shape that accepts no less. -/
theorem Definitions.Widened.exists_shape (h : ds.Widened ds') {name : String} {shape : Shape}
    (hd : ds.get? name = some shape) :
    ∃ shape', ds'.get? name = some shape' ∧
      ∀ lenient x, Conforms ds lenient shape x → Conforms ds' lenient shape' x := by
  induction h with
  | refl => exact ⟨shape, hd, fun _ _ hc => hc⟩
  | tail _ hlast ih =>
    obtain ⟨middle, hmiddle, hkept⟩ := ih
    obtain ⟨shape', hd', hedited⟩ := hlast.get?_eq_some hmiddle
    refine ⟨shape', hd', fun lenient x hc => ?_⟩
    exact hlast.conforms (fun _ _ h _ => Conforms.widens h) hedited (hkept lenient x hc)

/-- What conforms still does when the policy is relaxed or remains. -/
theorem Conforms.relaxed (hpolicy : lenient = true → lenient' = true) {shape : Shape}
    {x : Option Json} (hc : Conforms ds lenient shape x) : Conforms ds lenient' shape x := by
  cases lenient' with
  | true => exact hc.tolerate
  | false =>
    cases lenient with
    | true => cases hpolicy rfl
    | false => exact hc

/-- A binding accepts no less after the definitions are widened and the policy relaxed. -/
theorem Definitions.WellFormed.accepts_widened (hw : ds.WellFormed) (hw' : ds'.WellFormed)
    (hwidened : ds.Widened ds') (hpolicy : lenient = true → lenient' = true) {name : String}
    {b : Binding} (hb : ds.link.get? name = some b) :
    ∃ b', ds'.link.get? name = some b' ∧
      ∀ value, b.validate lenient value = .ok () → b'.validate lenient' value = .ok () := by
  obtain ⟨slot, d, hd, rfl, rfl⟩ := exists_of_get?_link hb
  have hget := get?_of_mem hw.distinct (List.mem_of_getElem? hd)
  obtain ⟨shape', hget', hkept⟩ := hwidened.exists_shape hget
  have hd' := (get?_eq_some_iff hw'.distinct).1 hget'
  have hb' := @get?_link ds' _ ⟨d.name, shape'⟩ hw'.distinct hd'
  refine ⟨_, hb', fun value hvalid => ?_⟩
  have hbefore := (hw.validate_decides hd value).1 hvalid
  have hafter := hkept lenient _ hbefore
  exact (hw'.validate_decides hd' value).2 (hafter.relaxed hpolicy)

/-- Widening the definitions and relaxing the policy rejects nothing that was accepted. Nor does
relaxing the policy alone: what is strictly valid passes the lenient check. -/
theorem Registry.widening_accepts {ds : Definitions} {r : Registry}
    (hr : Registry.compile ds = .ok r) :
    (∀ ds' r', Registry.compile ds' = .ok r' → ds.Widened ds' →
      ∀ lenient lenient' : Bool, (lenient = true → lenient' = true) →
        ∀ name b, r.get? name = some b → ∃ b', r'.get? name = some b' ∧
          ∀ value, b.validate lenient value = .ok () → b'.validate lenient' value = .ok ()) ∧
    ∀ name b, r.get? name = some b → ∀ value, b.isValid value = true →
      b.validate true value = .ok () := by
  obtain ⟨hw, rfl⟩ := Registry.compile_eq_ok hr
  constructor
  · intro ds' r' hr' hwidened lenient lenient' hpolicy name b hb
    obtain ⟨hw', rfl⟩ := Registry.compile_eq_ok hr'
    exact hw.accepts_widened hw' hwidened hpolicy hb
  · intro name b hb value hvalid
    obtain ⟨b', hb', hkept⟩ := hw.accepts_widened hw .refl (fun _ => rfl) hb
    rw [hb] at hb'
    cases hb'
    exact hkept value (Binding.isValid_iff.1 hvalid)

/-- The forest in which trees need no value, forests hold anything, and `Loose` has a reference to a
name that nobody defines. -/
def Definitions.sparseForest : Definitions :=
  ⟨none, [⟨"Tree", .object [⟨"value", .number, false⟩, ⟨"children", .alias "Forest", false⟩]⟩,
    ⟨"Forest", .array .any⟩, ⟨"Loose", .union [.alias "Nobody", .any, .alias "Loose"]⟩]⟩

/-- The sparse forest with that reference replaced. -/
def Definitions.widenedForest : Definitions :=
  ⟨none, [⟨"Tree", .object [⟨"value", .number, false⟩, ⟨"children", .alias "Forest", false⟩]⟩,
    ⟨"Forest", .array .any⟩, ⟨"Loose", .union [.any, .any, .alias "Loose"]⟩]⟩

/-- The way from the forest to the widened one leads through definitions that cannot be compiled. -/
theorem Definitions.widened_forest : Definitions.forest.Widened .widenedForest := by
  have htree : Definition.tree.shape.Widens
      (.object [⟨"value", .number, false⟩, ⟨"children", .alias "Forest", false⟩]) :=
    .optional [] "value" .number [⟨"children", .alias "Forest", false⟩]
  have hforest : Definition.forest.shape.Edited Shape.Widens (.array .any) :=
    .array (.replaced (.anything _))
  have hloose : Definition.loose.shape.Widens
      (.union [.alias "Nobody", .any, .alias "Loose"]) :=
    .member [] (.alias "Nobody") [.any, .alias "Loose"]
  have hnobody : (Shape.union [.alias "Nobody", .any, .alias "Loose"]).Edited Shape.Widens
      (.union [.any, .any, .alias "Loose"]) := by
    refine .union rfl fun pair hpair => ?_
    rcases List.mem_cons.1 hpair with rfl | hpair
    · exact .replaced (.anything _)
    · rw [eq_of_mem_zip_self hpair]
      exact .refl _
  have hsparse : Definitions.forest.Edited Shape.Widens .sparseForest :=
    .cons ⟨rfl, .replaced htree⟩ (.cons ⟨rfl, hforest⟩ (.cons ⟨rfl, .replaced hloose⟩ .nil))
  have hwidened : Definitions.sparseForest.Edited Shape.Widens .widenedForest :=
    .cons ⟨rfl, .refl _⟩ (.cons ⟨rfl, .refl _⟩ (.cons ⟨rfl, hnobody⟩ .nil))
  exact .tail (.single hsparse) hwidened

/-- The tame tree, which is strictly valid, is one of the widened forest as well, and passes the
lenient check. -/
theorem Registry.tree_widened :
    Registry.compile .forest = .ok Definitions.forest.link ∧
      Registry.compile .widenedForest = .ok Definitions.widenedForest.link ∧
      Definitions.forest.Widened .widenedForest ∧
      (Definitions.forest.binding 0 .tree).isValid .tameTree = true ∧
      (∃ b', Definitions.widenedForest.link.get? "Tree" = some b' ∧
        b'.validate false .tameTree = .ok ()) ∧
      (Definitions.forest.binding 0 .tree).validate true .tameTree = .ok () := by
  have hr : Registry.compile .forest = .ok Definitions.forest.link := rfl
  have hr' : Registry.compile .widenedForest = .ok Definitions.widenedForest.link := rfl
  have hb : Definitions.forest.link.get? "Tree" = some (Definitions.forest.binding 0 .tree) := rfl
  have hvalid : (Definitions.forest.binding 0 .tree).isValid .tameTree = true := rfl
  obtain ⟨hwider, hlenient⟩ := Registry.widening_accepts hr
  obtain ⟨b', hb', hkept⟩ :=
    hwider _ _ hr' Definitions.widened_forest false false id "Tree" _ hb
  have haccepted := hkept _ (Binding.isValid_iff.1 hvalid)
  exact ⟨hr, hr', Definitions.widened_forest, hvalid, ⟨b', hb', haccepted⟩,
    hlenient "Tree" _ hb _ hvalid⟩

end JsonShape
