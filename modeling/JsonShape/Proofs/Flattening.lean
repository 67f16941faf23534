import JsonShape.Proofs.Edits

/-!
# Proofs: nested unions

A union inside another one may be dissolved: its members take its place. They are tried in the same
order as before, up to the first that accepts, and if none does then the last of them to fail is the
last to fail of the inner union as well. So whatever is checked or created remains the same, down to
the failures. An empty union has to stay, since it has a failure of its own.

This is compared for one and the same budget of references. In the registries themselves nothing
else differs, as an edit changes neither the names nor their slots.

The definitions expose fewer names afterwards, not more: an inner union with `any` among its members
does not hide the members that stand behind it in the outer one, but its members do.
-/

namespace JsonShape

variable {ds ds' : Definitions} {old new shape shape' : Shape} {names : List String}
  {lenient : Bool} {enter : Nat → Option Json → Outcome Unit}
  {enterRebuild : Nat → Json → Outcome Json} {path : List String} {last : Option Failure}

/-- A union that is a member of a union is replaced by its members, of which it has some. -/
inductive Shape.Flattens : Shape → Shape → Prop where
  | dissolved (before : List Shape) {inner : List Shape} (after : List Shape) (h : inner ≠ []) :
      Flattens (.union (before ++ .union inner :: after)) (.union (before ++ inner ++ after))

/-! ## Unions as members -/

namespace Validator

variable {value : Option Json}

/-- The failure before the first member is forgotten when that member is tried. -/
theorem checkMembers_cons (last last' : Option Failure) (member : Validator)
    (rest : List Validator) :
    checkMembers enter lenient path last (member :: rest) value =
      checkMembers enter lenient path last' (member :: rest) value := by
  rw [checkMembers, checkMembers]

/-- A union that is a member is tried like its members in its place. -/
theorem checkMembers_union {inner : List Validator} (h : inner ≠ []) (rest : List Validator) :
    checkMembers enter lenient path last (.union inner :: rest) value =
      checkMembers enter lenient path last (inner ++ rest) value := by
  induction inner generalizing last with
  | nil => exact absurd rfl h
  | cons member others ih =>
    rw [checkMembers, check, checkMembers, List.cons_append, checkMembers]
    cases hcheck : member.check enter lenient path value with
    | ok => rfl
    | error refusal =>
      cases refusal with
      | stuck => rfl
      | failed failure =>
        cases others with
        | nil => rfl
        | cons next others =>
          have hothers := @ih (some failure) (List.cons_ne_nil _ _)
          rw [checkMembers, check, checkMembers_cons none (some failure)] at hothers
          exact hothers

/-- Members that are tried alike are so after others. -/
theorem checkMembers_append {rest rest' : List Validator}
    (h : ∀ last, checkMembers enter lenient path last rest value =
      checkMembers enter lenient path last rest' value) (before : List Validator) :
    checkMembers enter lenient path last (before ++ rest) value =
      checkMembers enter lenient path last (before ++ rest') value := by
  induction before generalizing last with
  | nil => exact h last
  | cons member others ih =>
    simp only [List.cons_append, checkMembers, ih]

theorem ofMembers_append (names : List String) (before after : List Shape) :
    ofMembers names (before ++ after) = ofMembers names before ++ ofMembers names after := by
  simp only [ofMembers_eq_map, List.map_append]

theorem check_flattens (h : old.Flattens new) :
    (ofShape names old).check enter lenient path value =
      (ofShape names new).check enter lenient path value := by
  cases h with
  | @dissolved before inner after hinner =>
    have hcompiled : ofMembers names inner ≠ [] := by
      rw [ofMembers_eq_map]
      exact mt List.map_eq_nil_iff.1 hinner
    simp only [ofShape, check, ofMembers_append, ofMembers, List.append_assoc]
    exact checkMembers_append (fun _ => checkMembers_union hcompiled _) _

end Validator

namespace Sanitizer

variable {value : Json}

/-- The failure before the first branch is forgotten when that branch is tried. -/
theorem rebuildBranches_cons (last last' : Option Failure) (branch : Branch)
    (rest : List Branch) :
    rebuildBranches enter enterRebuild lenient path last (branch :: rest) value =
      rebuildBranches enter enterRebuild lenient path last' (branch :: rest) value := by
  obtain ⟨validator, sanitizer⟩ := branch
  rw [rebuildBranches, rebuildBranches]

/-- A union that is a member rebuilds a value as its members in its place do. It is entered if one
of them accepts the value, and the search for this one, which is begun again, ends with it too. -/
theorem rebuildBranches_union {inner : List Branch} (h : inner ≠ []) (rest : List Branch) :
    rebuildBranches enter enterRebuild lenient path last
        (⟨.union (inner.map Branch.validator), .union inner⟩ :: rest) value =
      rebuildBranches enter enterRebuild lenient path last (inner ++ rest) value := by
  induction inner generalizing last with
  | nil => exact absurd rfl h
  | cons branch others ih =>
    obtain ⟨validator, sanitizer⟩ := branch
    rw [rebuildBranches, Validator.check, List.map_cons, Validator.checkMembers, rebuild,
      rebuildBranches, List.cons_append, rebuildBranches]
    cases hcheck : validator.check enter lenient path (some value) with
    | ok => rfl
    | error refusal =>
      cases refusal with
      | stuck => rfl
      | failed failure =>
        cases others with
        | nil => rfl
        | cons next others =>
          have hothers := @ih (some failure) (List.cons_ne_nil _ _)
          rw [rebuildBranches, Validator.check, rebuild, List.map_cons,
            Validator.checkMembers_cons none (some failure),
            rebuildBranches_cons none (some failure)] at hothers
          exact hothers

theorem rebuildBranches_append {rest rest' : List Branch}
    (h : ∀ last, rebuildBranches enter enterRebuild lenient path last rest value =
      rebuildBranches enter enterRebuild lenient path last rest' value) (before : List Branch) :
    rebuildBranches enter enterRebuild lenient path last (before ++ rest) value =
      rebuildBranches enter enterRebuild lenient path last (before ++ rest') value := by
  induction before generalizing last with
  | nil => exact h last
  | cons branch others ih =>
    obtain ⟨validator, sanitizer⟩ := branch
    simp only [List.cons_append, rebuildBranches, ih]

/-- The branches of a union hold the validators of its members. -/
theorem map_validator_ofMembers (names : List String) (members : List Shape) :
    (ofMembers names members).map Branch.validator = Validator.ofMembers names members := by
  rw [ofMembers_eq_map, Validator.ofMembers_eq_map, List.map_map]
  rfl

theorem ofMembers_append (names : List String) (before after : List Shape) :
    ofMembers names (before ++ after) = ofMembers names before ++ ofMembers names after := by
  simp only [ofMembers_eq_map, List.map_append]

theorem rebuild_flattens (h : old.Flattens new) :
    (ofShape names old).rebuild enter enterRebuild lenient path value =
      (ofShape names new).rebuild enter enterRebuild lenient path value := by
  cases h with
  | @dissolved before inner after hinner =>
    have hcompiled : ofMembers names inner ≠ [] := by
      rw [ofMembers_eq_map]
      exact mt List.map_eq_nil_iff.1 hinner
    simp only [ofShape, rebuild, ofMembers_append, ofMembers, List.append_assoc,
      Validator.ofShape, ← map_validator_ofMembers]
    exact rebuildBranches_append (fun _ => rebuildBranches_union hcompiled _) _

end Sanitizer

/-! ## Shapes -/

/-- Whatever the references lead to, replaced shapes are checked and rebuilt in the same way, down
to the failures. -/
structure Shape.Unnoticed (R : Shape → Shape → Prop) : Prop where
  check : ∀ {names enter lenient old new}, R old new → ∀ path value,
    (Validator.ofShape names old).check enter lenient path value =
      (Validator.ofShape names new).check enter lenient path value
  rebuild : ∀ {names enter enterRebuild lenient old new}, R old new → ∀ path value,
    (Sanitizer.ofShape names old).rebuild enter enterRebuild lenient path value =
      (Sanitizer.ofShape names new).rebuild enter enterRebuild lenient path value

theorem Shape.Flattens.unnoticed : Shape.Unnoticed Shape.Flattens where
  check h _ _ := Validator.check_flattens h
  rebuild h _ _ := Sanitizer.rebuild_flattens h

section Edits

variable {R : Shape → Shape → Prop} {properties properties' : List Property}
  {members members' : List Shape}

namespace Validator

variable {value : Option Json}

theorem checkProperties_congr (h : List.Forall₂ (fun p p' => p.name = p'.name ∧
      p.required = p'.required ∧ ∀ path value,
        (ofShape names p.shape).check enter lenient path value =
          (ofShape names p'.shape).check enter lenient path value) properties properties')
    (path : List String) (entries : List (String × Json)) :
    checkProperties enter lenient path entries (ofProperties names properties) =
      checkProperties enter lenient path entries (ofProperties names properties') := by
  induction h with
  | nil => rfl
  | @cons p p' rest rest' hfirst _ ih =>
    obtain ⟨name, shape, required⟩ := p
    obtain ⟨name', shape', required'⟩ := p'
    obtain ⟨rfl, rfl, hcheck⟩ := hfirst
    dsimp only at hcheck
    simp only [ofProperties, checkProperties, hcheck, ih]

theorem checkMembers_congr (h : List.Forall₂ (fun member member' => ∀ path value,
      (ofShape names member).check enter lenient path value =
        (ofShape names member').check enter lenient path value) members members')
    (path : List String) (last : Option Failure) (value : Option Json) :
    checkMembers enter lenient path last (ofMembers names members) value =
      checkMembers enter lenient path last (ofMembers names members') value := by
  induction h generalizing last with
  | nil => rfl
  | cons hfirst _ ih => simp only [ofMembers, checkMembers, hfirst, ih]

/-- An edit that is not noticed where it is made is not noticed at all. -/
theorem check_edited (hR : Shape.Unnoticed R) (h : shape.Edited R shape') (path : List String)
    (value : Option Json) :
    (ofShape names shape).check enter lenient path value =
      (ofShape names shape').check enter lenient path value := by
  induction h generalizing path value with
  | replaced h => exact hR.check h path value
  | leaf | reference => rfl
  | array _ ih => simp only [ofShape, check, ih]
  | object hlength hfields _ ih =>
    have hnames := map_eq_map_of_zip hlength fun pair hpair => (hfields pair hpair).1
    have hproperties := checkProperties_congr (List.forall₂_iff_zip.2 ⟨hlength,
      fun hpair => ⟨(hfields _ hpair).1, (hfields _ hpair).2, ih _ hpair⟩⟩) path
    simp only [ofShape, check, hproperties, undeclared?, map_name_ofProperties, hnames]
  | union hlength _ ih =>
    have hmembers := checkMembers_congr
      (List.forall₂_iff_zip.2 ⟨hlength, fun hpair => ih _ hpair⟩) path none value
    simp only [ofShape, check, hmembers]

end Validator

namespace Sanitizer

variable {value : Json}

theorem rebuildProperties_congr (h : List.Forall₂ (fun p p' => p.name = p'.name ∧
      ∀ path value, (ofShape names p.shape).rebuild enter enterRebuild lenient path value =
        (ofShape names p'.shape).rebuild enter enterRebuild lenient path value)
      properties properties') (path : List String) (entries : List (String × Json)) :
    rebuildProperties enter enterRebuild lenient path entries (ofProperties names properties) =
      rebuildProperties enter enterRebuild lenient path entries
        (ofProperties names properties') := by
  induction h with
  | nil => rfl
  | @cons p p' rest rest' hfirst _ ih =>
    obtain ⟨name, shape, required⟩ := p
    obtain ⟨name', shape', required'⟩ := p'
    obtain ⟨rfl, hrebuild⟩ := hfirst
    dsimp only at hrebuild
    simp only [ofProperties, rebuildProperties, hrebuild, ih]

theorem rebuildBranches_congr (h : List.Forall₂ (fun member member' => ∀ path value,
      (Validator.ofShape names member).check enter lenient path (some value) =
          (Validator.ofShape names member').check enter lenient path (some value) ∧
        (ofShape names member).rebuild enter enterRebuild lenient path value =
          (ofShape names member').rebuild enter enterRebuild lenient path value)
      members members') (path : List String) (last : Option Failure) (value : Json) :
    rebuildBranches enter enterRebuild lenient path last (ofMembers names members) value =
      rebuildBranches enter enterRebuild lenient path last (ofMembers names members') value := by
  induction h generalizing last with
  | nil => rfl
  | cons hfirst _ ih => simp only [ofMembers, rebuildBranches, hfirst, ih]

theorem rebuild_edited (hR : Shape.Unnoticed R) (h : shape.Edited R shape') (path : List String)
    (value : Json) :
    (ofShape names shape).rebuild enter enterRebuild lenient path value =
      (ofShape names shape').rebuild enter enterRebuild lenient path value := by
  induction h generalizing path value with
  | replaced h => exact hR.rebuild h path value
  | leaf | reference => rfl
  | array _ ih => simp only [ofShape, rebuild, ih]
  | object hlength hfields _ ih =>
    have hproperties := rebuildProperties_congr (List.forall₂_iff_zip.2 ⟨hlength,
      fun hpair => ⟨(hfields _ hpair).1, ih _ hpair⟩⟩) path
    simp only [ofShape, rebuild, hproperties]
  | union hlength hedits ih =>
    have hmembers := rebuildBranches_congr (List.forall₂_iff_zip.2 ⟨hlength,
      fun hpair path value =>
        ⟨Validator.check_edited hR (hedits _ hpair) path (some value), ih _ hpair path value⟩⟩)
      path none value
    simp only [ofShape, rebuild, hmembers]

end Sanitizer

/-! ## Definitions -/

namespace Definitions.Edited

theorem checkWithin_eq (he : ds.Edited R ds') (hR : Shape.Unnoticed R) (budget slot : Nat)
    (value : Option Json) :
    ds.link.checkWithin lenient budget slot value =
      ds'.link.checkWithin lenient budget slot value := by
  induction budget generalizing slot value with
  | zero => rfl
  | succ budget ih =>
    have henter : ds.link.checkWithin lenient budget = ds'.link.checkWithin lenient budget :=
      funext fun slot => funext (ih slot)
    rcases he.getElem?_cases slot with ⟨hnone, hnone'⟩ | ⟨d, d', hd, hd', hname, hshape⟩
    · rw [Registry.checkWithin, Registry.checkWithin, entries_link, entries_link, hnone, hnone']
      rfl
    · rw [checkWithin_succ hd, checkWithin_succ hd', henter, hname, he.names_eq]
      exact Validator.check_edited hR hshape _ value

theorem rebuildWithin_eq (he : ds.Edited R ds') (hR : Shape.Unnoticed R) (budget slot : Nat)
    (value : Json) :
    ds.link.rebuildWithin lenient budget slot value =
      ds'.link.rebuildWithin lenient budget slot value := by
  induction budget generalizing slot value with
  | zero => rfl
  | succ budget ih =>
    have henter : ds.link.checkWithin lenient budget = ds'.link.checkWithin lenient budget :=
      funext fun slot => funext (he.checkWithin_eq hR budget slot)
    have henterRebuild :
        ds.link.rebuildWithin lenient budget = ds'.link.rebuildWithin lenient budget :=
      funext fun slot => funext (ih slot)
    rcases he.getElem?_cases slot with ⟨hnone, hnone'⟩ | ⟨d, d', hd, hd', hname, hshape⟩
    · rw [Registry.rebuildWithin, Registry.rebuildWithin, entries_link, entries_link, hnone,
        hnone']
      rfl
    · rw [rebuildWithin_succ hd, rebuildWithin_succ hd', henter, henterRebuild, hname,
        he.names_eq]
      exact Sanitizer.rebuild_edited hR hshape _ value

end Definitions.Edited

/-- Two bindings do the same, down to the failures that they report. -/
structure Binding.Equivalent (b b' : Binding) : Prop where
  /-- Checks have the same outcome. -/
  validate : ∀ lenient value, b.validate lenient value = b'.validate lenient value
  /-- The same values are created, or the same failures returned. -/
  create : ∀ value, b.create value = b'.create value

namespace Definitions.Edited

theorem equivalent (he : ds.Edited R ds') (hR : Shape.Unnoticed R) (slot : Nat) {d d' : Definition}
    (hname : d.name = d'.name) : (ds.binding slot d).Equivalent (ds'.binding slot d') := by
  have hbudget : ∀ value, ds.link.budget value = ds'.link.budget value := by
    intro value
    rw [Registry.budget, Registry.budget, length_link, length_link, List.Forall₂.length_eq he]
  have hreport : ∀ {α : Type} value (outcome : Outcome α),
      (ds.binding slot d).report value outcome = (ds'.binding slot d').report value outcome := by
    intro α value outcome
    have hname : (ds.binding slot d).name = (ds'.binding slot d').name := hname
    simp only [Binding.report, hname]
  have hvalidate : ∀ lenient value, (ds.binding slot d).validate lenient value =
      (ds'.binding slot d').validate lenient value := by
    intro lenient value
    show Binding.report _ value (ds.link.checkWithin lenient (ds.link.budget value) slot _) =
      Binding.report _ value (ds'.link.checkWithin lenient (ds'.link.budget value) slot _)
    rw [hreport, hbudget, he.checkWithin_eq hR]
  have hrebuild : ∀ value,
      (ds.binding slot d).report value
          (ds.link.rebuildWithin true (ds.link.budget value) slot value) =
        (ds'.binding slot d').report value
          (ds'.link.rebuildWithin true (ds'.link.budget value) slot value) := by
    intro value
    rw [hreport, hbudget, he.rebuildWithin_eq hR]
  refine ⟨hvalidate, fun value => ?_⟩
  rw [Binding.create, Binding.create, hvalidate true value]
  exact congrArg _ (funext fun _ => hrebuild value)

end Definitions.Edited

end Edits

/-! ## Dissolved unions -/

namespace Shape.Flattens

theorem wellFormed {names : List String} (h : old.Flattens new) (hw : old.WellFormed names) :
    new.WellFormed names := by
  cases h with
  | dissolved before after =>
    cases hw with
    | union hmembers =>
      simp only [List.forall_mem_append, List.forall_mem_cons] at hmembers
      obtain ⟨hbefore, hinner, hafter⟩ := hmembers
      cases hinner with
      | union hinner =>
        refine .union ?_
        simp only [List.forall_mem_append]
        exact ⟨⟨hbefore, hinner⟩, hafter⟩

/-- What is exposed afterwards was exposed before. Members behind the inner union were not hidden
by it, whatever its members are. -/
theorem exposed (h : old.Flattens new) {target : String} (htarget : new.Exposed target) :
    old.Exposed target := by
  rw [← Shape.mem_unguarded_iff] at htarget ⊢
  cases h with
  | @dissolved before inner after =>
    have hinner : Shape.union inner ≠ .any := nofun
    simp only [unguarded, List.append_assoc, mem_unguardedMembers_append] at htarget ⊢
    rw [unguardedMembers_cons hinner, unguarded, List.mem_append]
    rcases htarget with hbefore | ⟨hnone, hinner | ⟨-, hafter⟩⟩
    · exact .inl hbefore
    · exact .inr ⟨hnone, .inl hinner⟩
    · exact .inr ⟨hnone, .inr hafter⟩

end Shape.Flattens

theorem Definitions.WellFormed.flattened (hw : ds.WellFormed) (he : ds.Edited Shape.Flattens ds') :
    ds'.WellFormed := by
  refine hw.edited he (fun _ _ h => h.wellFormed) (fun _ h => ?_) fun _ _ target h htarget => ?_
  · cases h
  · exact ⟨target, h.exposed htarget, .refl⟩

/-- Unions inside unions may as well be dissolved. The definitions are compiled as before, the same
names are bound, and each accepts and creates what it did, and fails as it did. -/
theorem Registry.flattening_preserves {ds ds' : Definitions} {r : Registry}
    (hr : Registry.compile ds = .ok r) (he : ds.Edited Shape.Flattens ds') :
    ∃ r', Registry.compile ds' = .ok r' ∧
      ∀ name, Option.Rel Binding.Equivalent (r.get? name) (r'.get? name) := by
  obtain ⟨hw, rfl⟩ := Registry.compile_eq_ok hr
  refine ⟨ds'.link, Registry.compile_eq_ok_iff.2 ⟨hw.flattened he, rfl⟩, ?_⟩
  refine he.rel_get? hw.distinct fun slot d d' _ _ hname _ => ?_
  exact he.equivalent Shape.Flattens.unnoticed slot hname

/-- Trees whose value may be unknown, or given with its unit. -/
def Definition.nestedTree : Definition :=
  ⟨"Tree", .object [⟨"value", .union [.null, .union [.number,
    .object [⟨"unit", .string, true⟩]]], true⟩, ⟨"children", .alias "Forest", false⟩]⟩

/-- The same trees with one union for all values. -/
def Definition.flatTree : Definition :=
  ⟨"Tree", .object [⟨"value", .union [.null, .number, .object [⟨"unit", .string, true⟩]], true⟩,
    ⟨"children", .alias "Forest", false⟩]⟩

/-- A forest with unions inside unions. -/
def Definitions.nestedForest : Definitions :=
  ⟨none, [.nestedTree, .forest, ⟨"Loose", .union [.any, .union [.alias "Loose", .string]]⟩]⟩

/-- The forest with all inner unions dissolved. -/
def Definitions.flatForest : Definitions :=
  ⟨none, [.flatTree, .forest, ⟨"Loose", .union [.any, .alias "Loose", .string]⟩]⟩

theorem Definitions.edited_flatForest :
    Definitions.nestedForest.Edited Shape.Flattens .flatForest := by
  have hvalue : (Shape.union [.null, .union [.number, .object [⟨"unit", .string, true⟩]]]).Flattens
      (.union [.null, .number, .object [⟨"unit", .string, true⟩]]) :=
    .dissolved [.null] [] (List.cons_ne_nil _ _)
  have htree : Definition.nestedTree.shape.Edited Shape.Flattens Definition.flatTree.shape := by
    refine .object rfl (by simp) fun pair hpair => ?_
    rcases List.mem_cons.1 hpair with rfl | hpair
    · exact .replaced hvalue
    · rw [List.mem_singleton.1 hpair]
      exact .refl _
  have hloose : (Shape.union [.any, .union [.alias "Loose", .string]]).Flattens
      (.union [.any, .alias "Loose", .string]) :=
    .dissolved [.any] [] (List.cons_ne_nil _ _)
  exact .cons ⟨rfl, htree⟩ (.cons ⟨rfl, .refl _⟩ (.cons ⟨rfl, .replaced hloose⟩ .nil))

/-- In the flat forest the tame tree is still created of the wild one, and a value of the wrong kind
is still blamed on the last member of the inner union. -/
theorem Registry.forest_flattened :
    Registry.compile .nestedForest = .ok Definitions.nestedForest.link ∧
      Definitions.nestedForest.Edited Shape.Flattens .flatForest ∧
      ∃ r', Registry.compile .flatForest = .ok r' ∧ ∃ b', r'.get? "Tree" = some b' ∧
        b'.create .wildTree = .ok .tameTree ∧
        b'.validate false (.object [("value", .bool true)]) =
          .error ⟨["Tree", "value"], .notObject, some (.bool true)⟩ := by
  have hr : Registry.compile .nestedForest = .ok Definitions.nestedForest.link := rfl
  obtain ⟨r', hcompiled, hbound⟩ := Registry.flattening_preserves hr Definitions.edited_flatForest
  have hb : Definitions.nestedForest.link.get? "Tree" =
      some (Definitions.nestedForest.binding 0 .nestedTree) := rfl
  have hcreate : (Definitions.nestedForest.binding 0 .nestedTree).create .wildTree =
      .ok .tameTree := rfl
  have hfailure : (Definitions.nestedForest.binding 0 .nestedTree).validate false
      (.object [("value", .bool true)]) =
        .error ⟨["Tree", "value"], .notObject, some (.bool true)⟩ := rfl
  have htree := hbound "Tree"
  rw [hb] at htree
  generalize hb' : r'.get? "Tree" = found at htree
  cases htree with
  | some hequivalent =>
    rw [hequivalent.create] at hcreate
    rw [hequivalent.validate] at hfailure
    exact ⟨hr, Definitions.edited_flatForest, r', hcompiled, _, hb', hcreate, hfailure⟩

/-- Nothing of this holds the other way round: `Loose` is compiled without the inner union, which
hides no member behind it. -/
example : Registry.compile ⟨none, [⟨"Loose", .union [.union [.any], .alias "Loose"]⟩]⟩ =
    .error (.unguardedCycle ["Loose", "Loose"]) := rfl

end JsonShape
