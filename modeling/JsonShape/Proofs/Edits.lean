import JsonShape.Proofs.Acceptance
import JsonShape.Proofs.Indifference

/-!
# Proofs: edited definitions

Definitions are *edited* by replacing parts of their shapes, in any number of places and at any
depth. What a single replacement does not change is not changed by an edit either. This is said here
once for all kinds of replacements: of being well formed, of the names that are exposed, of
conformance and of projection.

Conformance and projection are compared in two stages. First two shapes are compared beside the same
definitions, by going through the places where they differ. Then one shape is compared beside two
sets of definitions, by going through a derivation, which enters the shapes of names.
-/

namespace JsonShape

open Relation

/-- A shape in which parts have been replaced by others that stand to them in the relation `R`. -/
inductive Shape.Edited (R : Shape → Shape → Prop) : Shape → Shape → Prop where
  /-- The shape itself is replaced. -/
  | replaced {shape shape' : Shape} (h : R shape shape') : Edited R shape shape'
  | leaf {shape : Shape} (h : shape.isLeaf = true) : Edited R shape shape
  | reference (name : String) : Edited R (.alias name) (.alias name)
  | array {element element' : Shape} (h : Edited R element element') :
      Edited R (.array element) (.array element')
  /-- Properties keep their names, and remain required or optional. -/
  | object {properties properties' : List Property}
      (hlength : properties.length = properties'.length)
      (hfields : ∀ pair ∈ properties.zip properties',
        pair.1.name = pair.2.name ∧ pair.1.required = pair.2.required)
      (h : ∀ pair ∈ properties.zip properties', Edited R pair.1.shape pair.2.shape) :
      Edited R (.object properties) (.object properties')
  | union {members members' : List Shape} (hlength : members.length = members'.length)
      (h : ∀ pair ∈ members.zip members', Edited R pair.1 pair.2) :
      Edited R (.union members) (.union members')

/-- Definitions whose shapes have been edited. -/
def Definitions.Edited (R : Shape → Shape → Prop) (ds ds' : Definitions) : Prop :=
  List.Forall₂ (fun d d' => d.name = d'.name ∧ d.shape.Edited R d'.shape) ds.types ds'.types

variable {R : Shape → Shape → Prop} {ds ds' : Definitions} {shape shape' : Shape}

/-! ## Shapes -/

namespace Shape.Edited

/-- Nothing need be replaced. -/
theorem refl (shape : Shape) : shape.Edited R shape := by
  induction shape with
  | reference name => exact .reference name
  | array element ih => exact .array ih
  | object properties ih =>
    refine .object rfl (fun pair hpair => ?_) fun pair hpair => ?_
    · rw [eq_of_mem_zip_self hpair]
      exact ⟨rfl, rfl⟩
    · rw [← eq_of_mem_zip_self hpair]
      exact ih pair.1 (List.of_mem_zip hpair).1
  | union members ih =>
    refine .union rfl fun pair hpair => ?_
    rw [← eq_of_mem_zip_self hpair]
    exact ih pair.1 (List.of_mem_zip hpair).1
  | _ => exact .leaf rfl

/-- An edit can be undone. -/
theorem flip (h : shape.Edited R shape') : shape'.Edited (fun new old => R old new) shape := by
  induction h with
  | replaced h => exact .replaced h
  | leaf h => exact .leaf h
  | reference name => exact .reference name
  | array _ ih => exact .array ih
  | object hlength hfields _ ih =>
    refine .object hlength.symm (fun pair hpair => ?_) fun pair hpair => ?_
    · obtain ⟨hname, hrequired⟩ := hfields pair.swap (mem_zip_swap hpair)
      exact ⟨hname.symm, hrequired.symm⟩
    · exact ih pair.swap (mem_zip_swap hpair)
  | union hlength _ ih =>
    exact .union hlength.symm fun pair hpair => ih pair.swap (mem_zip_swap hpair)

/-- An edit keeps a shape well formed if the replacements do. -/
theorem wellFormed {names : List String}
    (hR : ∀ old new, R old new → old.WellFormed names → new.WellFormed names)
    (h : shape.Edited R shape') (hw : shape.WellFormed names) : shape'.WellFormed names := by
  induction h with
  | replaced h => exact hR _ _ h hw
  | leaf | reference => exact hw
  | array _ ih =>
    cases hw with
    | array hw => exact .array (ih hw)
  | object hlength hfields _ ih =>
    cases hw with
    | object hd hw =>
      have hnames := map_eq_map_of_zip hlength fun pair hpair => (hfields pair hpair).1
      refine .object (hnames ▸ hd) fun p' hp' => ?_
      obtain ⟨p, hp, hpair⟩ := exists_of_mem_right hlength hp'
      exact ih (p, p') hpair (hw p hp)
  | union hlength _ ih =>
    cases hw with
    | union hw =>
      refine .union fun member' hm' => ?_
      obtain ⟨member, hm, hpair⟩ := exists_of_mem_right hlength hm'
      exact ih (member, member') hpair (hw member hm)

/-- If the replacements expose nothing that was not exposed before, be it over a further reference,
then an edit does neither. -/
theorem exposed (hany : ∀ new, R .any new → new = .any)
    (hR : ∀ old new target, R old new → new.Exposed target →
      ∃ name, old.Exposed name ∧ ReflGen ds.Exposes name target)
    (he : shape.Edited R shape') {target : String} (h : shape'.Exposed target) :
    ∃ name, shape.Exposed name ∧ ReflGen ds.Exposes name target := by
  -- on the way to the exposed name, which the edit leaves alone up to a replacement
  induction h generalizing shape with
  | reference =>
    cases he with
    | replaced hr => exact hR _ _ _ hr .reference
    | leaf hleaf => cases hleaf
    | reference => exact ⟨target, .reference, .refl⟩
  | @union before after member hnone h ih =>
    cases he with
    | replaced hr => exact hR _ _ _ hr (.union hnone h)
    | leaf hleaf => cases hleaf
    | union hlength hedits =>
      obtain ⟨before', old, after', rfl, hpair, hbefore'⟩ := exists_split_of_zip hlength
      obtain ⟨name, hname, hleads⟩ := ih (hedits _ hpair)
      refine ⟨name, .union (fun hmem => ?_) hname, hleads⟩
      obtain ⟨other, hother, hzip⟩ := hbefore' .any hmem
      cases hedits _ hzip with
      | replaced hr => exact hnone (hany _ hr ▸ hother)
      | leaf => exact hnone hother

end Shape.Edited

/-! ## Definitions -/

namespace Definitions

theorem Edited.refl (ds : Definitions) : ds.Edited R ds :=
  List.forall₂_same.2 fun d _ => ⟨rfl, .refl d.shape⟩

theorem Edited.flip (h : ds.Edited R ds') : ds'.Edited (fun new old => R old new) ds :=
  List.Forall₂.flip (h.imp fun _ _ hd => ⟨hd.1.symm, hd.2.flip⟩)

theorem Edited.names_eq (h : ds.Edited R ds') : ds.names = ds'.names := by
  have hnames := List.forall₂_map_left_iff.2 (List.forall₂_map_right_iff.2
    (h.imp fun _ _ hd => hd.1))
  rwa [List.forall₂_eq_eq_eq] at hnames

/-- A slot is empty as it was, or what is defined in it has been edited. -/
theorem Edited.getElem?_cases (h : ds.Edited R ds') (slot : Nat) :
    ds.types[slot]? = none ∧ ds'.types[slot]? = none ∨
      ∃ d d', ds.types[slot]? = some d ∧ ds'.types[slot]? = some d' ∧ d.name = d'.name ∧
        d.shape.Edited R d'.shape := by
  obtain ⟨hlength, hpairs⟩ := List.forall₂_iff_get.1 h
  by_cases hlt : slot < ds.types.length
  · have hlt' : slot < ds'.types.length := hlength ▸ hlt
    exact .inr ⟨_, _, List.getElem?_eq_getElem hlt, List.getElem?_eq_getElem hlt',
      hpairs slot hlt hlt'⟩
  · have hle : ds.types.length ≤ slot := Nat.le_of_not_lt hlt
    exact .inl ⟨List.getElem?_eq_none hle, List.getElem?_eq_none (hlength ▸ hle)⟩

/-- A name is bound to the edited shape. -/
theorem Edited.get?_eq_some (h : ds.Edited R ds') {name : String} (hd : ds.get? name = some shape) :
    ∃ shape', ds'.get? name = some shape' ∧ shape.Edited R shape' := by
  obtain ⟨version, types⟩ := ds
  obtain ⟨version', types'⟩ := ds'
  simp only [Edited, get?] at h hd ⊢
  induction h with
  | nil => cases hd
  | @cons d d' rest rest' hfirst _ ih =>
    obtain ⟨hname, hedited⟩ := hfirst
    rw [List.find?_cons] at hd ⊢
    rw [← hname]
    split at hd
    · cases hd
      exact ⟨_, rfl, hedited⟩
    · exact ih hd

/-- Edited definitions can be compiled if the replacements are well formed and expose nothing
new. -/
theorem WellFormed.edited (hw : ds.WellFormed) (he : ds.Edited R ds')
    (hshapes : ∀ old new, R old new → old.WellFormed ds.names → new.WellFormed ds.names)
    (hany : ∀ new, R .any new → new = .any)
    (hexposed : ∀ old new target, R old new → new.Exposed target →
      ∃ name, old.Exposed name ∧ ReflGen ds.Exposes name target) : ds'.WellFormed := by
  have hnames := he.names_eq
  have hpaired : ∀ d' ∈ ds'.types, ∃ d ∈ ds.types, d.name = d'.name ∧
      d.shape.Edited R d'.shape := by
    intro d' hd'
    obtain ⟨hlength, hpairs⟩ := List.forall₂_iff_zip.1 he
    obtain ⟨d, hd, hpair⟩ := exists_of_mem_right hlength hd'
    exact ⟨d, hd, hpairs hpair⟩
  have hdistinct : ds'.names.Nodup := hnames ▸ hw.distinct
  have hformed : ∀ d' ∈ ds'.types, d'.shape.WellFormed ds'.names := by
    intro d' hd'
    obtain ⟨d, hd, -, hedited⟩ := hpaired d' hd'
    rw [← hnames]
    exact hedited.wellFormed hshapes (hw.shapes d hd)
  refine ⟨hnames ▸ hw.named, hdistinct, hformed, ?_⟩
  -- what is exposed after the edit can be reached along exposed names before it
  have hleads : ∀ a b, ds'.Exposes a b → TransGen ds.Exposes a b := by
    rintro a b ⟨d', hd', rfl, hb⟩
    obtain ⟨d, hd, hname, hedited⟩ := hpaired d' hd'
    obtain ⟨middle, hmiddle, hrest⟩ := hedited.exposed hany hexposed hb
    have hfirst : ds.Exposes d'.name middle := ⟨d, hd, hname, hmiddle⟩
    cases hrest with
    | refl => exact .single hfirst
    | single hsecond => exact .tail (.single hfirst) hsecond
  have hgrounded := (unguardedCycle?_eq_none_iff hw.distinct hw.shapes).1 hw.acyclic
  refine (unguardedCycle?_eq_none_iff hdistinct hformed).2 fun name hcycle => ?_
  exact hgrounded name (hcycle.lift' id hleads)

end Definitions

/-! ## Conformance -/

section Conformance

variable {lenient : Bool}

/-- An edit keeps what conforms if the replacements do. -/
theorem Conforms.edited
    (hR : ∀ old new, R old new → ∀ x, Conforms ds lenient old x → Conforms ds lenient new x)
    (he : shape.Edited R shape') {x : Option Json} (h : Conforms ds lenient shape x) :
    Conforms ds lenient shape' x := by
  induction he generalizing x with
  | replaced hr => exact hR _ _ hr x h
  | leaf | reference => exact h
  | array _ ih =>
    obtain ⟨items, rfl, hitems⟩ := Conforms.array_iff.1 h
    exact .array fun item hitem => ih (hitems item hitem)
  | object hlength hfields _ ih =>
    obtain ⟨entries, rfl, hkeys, hproperties⟩ := Conforms.object_iff.1 h
    have hnames := map_eq_map_of_zip hlength fun pair hpair => (hfields pair hpair).1
    refine Conforms.object_iff.2 ⟨entries, rfl, hnames ▸ hkeys, fun p' hp' hlook => ?_⟩
    obtain ⟨p, hp, hpair⟩ := exists_of_mem_right hlength hp'
    obtain ⟨hname, hrequired⟩ := hfields _ hpair
    dsimp only at hname hrequired
    rw [← hname, ← hrequired] at hlook
    rw [← hname]
    exact ih _ hpair (hproperties p hp hlook)
  | union hlength _ ih =>
    obtain ⟨member, hm, hc⟩ := Conforms.union_iff.1 h
    obtain ⟨member', hm', hpair⟩ := exists_of_mem_left hlength hm
    exact .union hm' (ih _ hpair hc)

theorem Shape.Edited.conforms_iff
    (hR : ∀ old new, R old new → ∀ x, Conforms ds lenient old x ↔ Conforms ds lenient new x)
    (he : shape.Edited R shape') (x : Option Json) :
    Conforms ds lenient shape x ↔ Conforms ds lenient shape' x := by
  constructor
  · exact Conforms.edited (fun old new hr x => (hR old new hr x).1) he
  · exact Conforms.edited (fun new old hr x => (hR old new hr x).2) he.flip

/-- A value conforms beside other definitions if these accept no less under each name. -/
theorem Conforms.redefined
    (hdefs : ∀ name shape, ds.get? name = some shape → ∃ shape', ds'.get? name = some shape' ∧
      ∀ x, Conforms ds' lenient shape x → Conforms ds' lenient shape' x)
    {x : Option Json} (h : Conforms ds lenient shape x) : Conforms ds' lenient shape x := by
  induction h with
  | literal h => exact .literal h
  | array _ ih => exact .array ih
  | object hkeys _ _ ihpresent ihmissing => exact .object hkeys ihpresent ihmissing
  | union hm _ ih => exact .union hm ih
  | reference hd _ ih =>
    obtain ⟨shape', hd', hkept⟩ := hdefs _ _ hd
    exact .reference hd' (hkept _ ih)
  | _ => constructor

/-- If the replacements accept no less beside the edited definitions, then the names do not, and
neither does an edited shape. -/
theorem Definitions.Edited.conforms (he : ds.Edited R ds')
    (hR : ∀ old new, R old new → ∀ x, Conforms ds' lenient old x → Conforms ds' lenient new x)
    (hs : shape.Edited R shape') {x : Option Json} (h : Conforms ds lenient shape x) :
    Conforms ds' lenient shape' x := by
  have hnames : Conforms ds' lenient shape x := by
    refine h.redefined fun name old hold => ?_
    obtain ⟨new, hnew, hedited⟩ := he.get?_eq_some hold
    exact ⟨new, hnew, fun x => Conforms.edited hR hedited⟩
  exact hnames.edited hR hs

end Conformance

/-! ## Projection -/

/-- If the replacements accept the same values and are projections only of what was one before, then
so is an edited shape. -/
theorem Projects.edited
    (hconforms : ∀ old new, R old new → ∀ x, Conforms ds true old x ↔ Conforms ds true new x)
    (hR : ∀ old new, R old new → ∀ v w, Projects ds new v w → Projects ds old v w)
    (he : shape.Edited R shape') {value rebuilt : Json} (h : Projects ds shape' value rebuilt) :
    Projects ds shape value rebuilt := by
  induction he generalizing value rebuilt with
  | replaced hr => exact hR _ _ hr _ _ h
  | leaf | reference => exact h
  | array _ ih =>
    cases h with
    | leaf hleaf => cases hleaf
    | array hlength hpairs => exact .array hlength fun pair hpair => ih (hpairs pair hpair)
  | object hlength hfields _ ih =>
    cases h with
    | leaf hleaf => cases hleaf
    | object hsorted hkeys hvalues =>
      have hnames := map_eq_map_of_zip hlength fun pair hpair => (hfields pair hpair).1
      refine .object hsorted (fun key => ?_) fun p hp old new hold hnew => ?_
      · rw [hnames]
        exact hkeys key
      · obtain ⟨p', hp', hpair⟩ := exists_of_mem_left hlength hp
        have hname : p.name = p'.name := (hfields _ hpair).1
        rw [hname] at hold hnew
        exact ih _ hpair (hvalues p' hp' old new hold hnew)
  | union hlength hedits ih =>
    cases h with
    | leaf hleaf => cases hleaf
    | union hsplit hbefore hmember hprojects =>
      subst hsplit
      obtain ⟨before', old, after', rfl, hpair, hbefore'⟩ := exists_split_of_zip hlength
      refine .union rfl (fun other hother hc => ?_) ?_ (ih _ hpair hprojects)
      · obtain ⟨partner, hpartner, hzip⟩ := hbefore' other hother
        exact hbefore partner hpartner (((hedits _ hzip).conforms_iff hconforms _).1 hc)
      · exact ((hedits _ hpair).conforms_iff hconforms _).2 hmember

/-- A projection remains one beside other definitions if these accept the same values and keep no
less than the projections under each name. -/
theorem Projects.redefined
    (hconforms : ∀ shape x, Conforms ds true shape x ↔ Conforms ds' true shape x)
    (hdefs : ∀ name shape, ds.get? name = some shape → ∃ shape', ds'.get? name = some shape' ∧
      ∀ v w, Projects ds' shape v w → Projects ds' shape' v w)
    {value rebuilt : Json} (h : Projects ds shape value rebuilt) :
    Projects ds' shape value rebuilt := by
  induction h with
  | leaf hleaf value => exact .leaf hleaf value
  | array hlength _ ih => exact .array hlength ih
  | object hsorted hkeys _ ih => exact .object hsorted hkeys ih
  | union hsplit hbefore hmember _ ih =>
    refine .union hsplit (fun other hother hc => ?_) ((hconforms _ _).1 hmember) ih
    exact hbefore other hother ((hconforms _ _).2 hc)
  | reference hd _ ih =>
    obtain ⟨shape', hd', hkept⟩ := hdefs _ _ hd
    exact .reference hd' (hkept _ _ ih)

/-! ## Bindings -/

/-- Two bindings accept and create the same. They may differ in the failures they report. -/
structure Binding.Alike (b b' : Binding) : Prop where
  /-- The same values are accepted. -/
  accepts : ∀ lenient value, b.validate lenient value = .ok () ↔ b'.validate lenient value = .ok ()
  /-- The same values are created, and of the same values. -/
  creates : ∀ value created, b.create value = .ok created ↔ b'.create value = .ok created

namespace Definitions

/-- Shapes that accept the same values are bound alike if projections by the one are projections by
the other. The other direction holds because a projection is unique. -/
theorem WellFormed.alike (hw : ds.WellFormed) (hw' : ds'.WellFormed) {slot slot' : Nat}
    {d d' : Definition} (hd : ds.types[slot]? = some d) (hd' : ds'.types[slot']? = some d')
    (hconforms : ∀ lenient x, Conforms ds lenient d.shape x ↔ Conforms ds' lenient d'.shape x)
    (hprojects : ∀ v w, Projects ds' d'.shape v w → Projects ds d.shape v w) :
    (ds.binding slot d).Alike (ds'.binding slot' d') := by
  have haccepts : ∀ lenient value, (ds.binding slot d).validate lenient value = .ok () ↔
      (ds'.binding slot' d').validate lenient value = .ok () := by
    intro lenient value
    rw [hw.validate_decides hd, hw'.validate_decides hd']
    exact hconforms lenient (some value)
  refine ⟨haccepts, fun value created => ?_⟩
  rw [hw.create_eq_ok_iff hd, hw'.create_eq_ok_iff hd', ← hconforms true]
  refine and_congr_right fun hc => ⟨fun hmade => ?_, hprojects value created⟩
  obtain ⟨other, hother⟩ := (hw'.exists_create_iff hd').2
    ((haccepts true value).1 ((hw.validate_decides hd value).2 hc))
  have hafter := ((hw'.create_eq_ok_iff hd').1 hother).2
  rw [hmade.unique (hprojects value other hafter)]
  exact hafter

/-- An edit leaves the same names bound. What holds of the bindings of a definition and the edited one
holds of the two bindings of a name. -/
theorem Edited.rel_get? {P : Binding → Binding → Prop} (he : ds.Edited R ds')
    (hdistinct : ds.names.Nodup)
    (hP : ∀ slot d d', ds.types[slot]? = some d → ds'.types[slot]? = some d' → d.name = d'.name →
      d.shape.Edited R d'.shape → P (ds.binding slot d) (ds'.binding slot d')) (name : String) :
    Option.Rel P (ds.link.get? name) (ds'.link.get? name) := by
  have hdistinct' : ds'.names.Nodup := he.names_eq ▸ hdistinct
  by_cases hname : name ∈ ds.names
  · obtain ⟨shape, hd⟩ := exists_of_mem_names hdistinct hname
    obtain ⟨shape', hget', hedited⟩ := he.get?_eq_some ((get?_eq_some_iff hdistinct).2 hd)
    have hd' := (get?_eq_some_iff hdistinct').1 hget'
    rw [← he.names_eq] at hd'
    have hb : ds.link.get? name = some _ := get?_link hdistinct hd
    have hb' : ds'.link.get? name = some _ := get?_link hdistinct' hd'
    rw [hb, hb']
    exact .some (hP _ _ _ hd hd' rfl hedited)
  · rw [get?_link_of_notMem hname, get?_link_of_notMem (he.names_eq ▸ hname)]
    exact .none

/-- If an edit leaves conformance alone, and projections after it are projections before it, then
the same names are bound, to bindings that are alike. -/
theorem Edited.alike (he : ds.Edited R ds') (hw : ds.WellFormed) (hw' : ds'.WellFormed)
    (hconforms : ∀ lenient shape shape', shape.Edited R shape' → ∀ x,
      Conforms ds lenient shape x ↔ Conforms ds' lenient shape' x)
    (hprojects : ∀ shape shape', shape.Edited R shape' → ∀ v w,
      Projects ds' shape' v w → Projects ds shape v w) (name : String) :
    Option.Rel Binding.Alike (ds.link.get? name) (ds'.link.get? name) := by
  refine he.rel_get? hw.distinct (fun slot d d' hd hd' _ hedited => ?_) name
  exact hw.alike hw' hd hd' (fun lenient => hconforms lenient _ _ hedited) (hprojects _ _ hedited)

end Definitions

/-! ## Replacements that make no difference -/

/-- Beside any definitions, the replacements accept the same values and keep the same of them. -/
structure Shape.Harmless (R : Shape → Shape → Prop) : Prop where
  conforms_iff : ∀ {ds : Definitions} {lenient : Bool} {old new : Shape}, R old new →
    ∀ x, Conforms ds lenient old x ↔ Conforms ds lenient new x
  projects : ∀ {ds : Definitions} {old new : Shape}, R old new →
    ∀ value rebuilt, Projects ds new value rebuilt → Projects ds old value rebuilt

namespace Definitions.Edited

theorem conforms_iff_of_harmless (he : ds.Edited R ds') (hR : Shape.Harmless R)
    (hs : shape.Edited R shape') {lenient : Bool} (x : Option Json) :
    Conforms ds lenient shape x ↔ Conforms ds' lenient shape' x :=
  ⟨he.conforms (fun _ _ hr x => (hR.conforms_iff hr x).1) hs,
    he.flip.conforms (fun _ _ hr x => (hR.conforms_iff hr x).2) hs.flip⟩

theorem projects_of_harmless (he : ds.Edited R ds') (hR : Shape.Harmless R)
    (hs : shape.Edited R shape') {value rebuilt : Json} (h : Projects ds' shape' value rebuilt) :
    Projects ds shape value rebuilt := by
  have hbeside : Projects ds' shape value rebuilt :=
    h.edited (fun _ _ hr => hR.conforms_iff hr) (fun _ _ hr => hR.projects hr) hs
  refine hbeside.redefined (fun shape x => ?_) fun name new hnew => ?_
  · exact (he.conforms_iff_of_harmless hR (.refl shape) x).symm
  · obtain ⟨old, hold, hedited⟩ := he.flip.get?_eq_some hnew
    refine ⟨old, hold, fun value rebuilt hprojects => ?_⟩
    exact hprojects.edited (fun _ _ hr => hR.conforms_iff hr) (fun _ _ hr => hR.projects hr)
      hedited.flip

/-- Harmless replacements leave the bindings alike. -/
theorem alike_of_harmless (he : ds.Edited R ds') (hR : Shape.Harmless R) (hw : ds.WellFormed)
    (hw' : ds'.WellFormed) (name : String) :
    Option.Rel Binding.Alike (ds.link.get? name) (ds'.link.get? name) :=
  he.alike hw hw' (fun _ _ _ hs => he.conforms_iff_of_harmless hR hs)
    (fun _ _ hs _ _ => he.projects_of_harmless hR hs) name

end Definitions.Edited

end JsonShape
