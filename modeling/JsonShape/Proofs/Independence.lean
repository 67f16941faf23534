import JsonShape.Proofs.Acceptance
import JsonShape.Proofs.Creation

/-!
# Proofs: what a binding depends on

A binding depends on the definitions that it leads to, and on nothing else: not on where these stand
among the definitions, and not on what else is defined. Two sets of definitions that *share* some
names, and with each name all those that its shape refers to, bind these names to the same
behaviour, down to the failures.

The slots of a name differ between the two, and so do the compiled shapes. What is compared is one
step of a check or a rebuilding with two numberings of the names; since every step goes one
reference deeper, the two then agree for one and the same budget.
-/

namespace JsonShape

variable {names names' : List String} {lenient : Bool}
  {enter enter' : Nat → Option Json → Outcome Unit}

/-! ## One step with two numberings -/

namespace Validator

theorem undeclared?_renumbered (names names' : List String) (properties : List Property)
    (entries : List (String × Json)) :
    undeclared? (ofProperties names properties) entries =
      undeclared? (ofProperties names' properties) entries := by
  rw [undeclared?, undeclared?, map_name_ofProperties, map_name_ofProperties]

theorem checkProperties_renumbered {properties : List Property}
    (h : ∀ p ∈ properties, ∀ path value,
      (ofShape names p.shape).check enter lenient path value =
        (ofShape names' p.shape).check enter' lenient path value)
    (path : List String) (entries : List (String × Json)) :
    checkProperties enter lenient path entries (ofProperties names properties) =
      checkProperties enter' lenient path entries (ofProperties names' properties) := by
  induction properties with
  | nil => rfl
  | cons p rest ih =>
    obtain ⟨name, shape, required⟩ := p
    obtain ⟨hfirst, hrest⟩ := List.forall_mem_cons.1 h
    simp only [ofProperties, checkProperties, hfirst, ih hrest]

theorem checkMembers_renumbered {members : List Shape}
    (h : ∀ member ∈ members, ∀ path value,
      (ofShape names member).check enter lenient path value =
        (ofShape names' member).check enter' lenient path value)
    (path : List String) (last : Option Failure) (value : Option Json) :
    checkMembers enter lenient path last (ofMembers names members) value =
      checkMembers enter' lenient path last (ofMembers names' members) value := by
  induction members generalizing last with
  | nil => rfl
  | cons member rest ih =>
    obtain ⟨hfirst, hrest⟩ := List.forall_mem_cons.1 h
    simp only [ofMembers, checkMembers, hfirst, ih hrest]

/-- A check asks only about the aliases in its shape. -/
theorem check_renumbered {shape : Shape}
    (h : ∀ name, Shape.Part (.alias name) shape → ∀ x,
      enter (names.idxOf name) x = enter' (names'.idxOf name) x)
    (path : List String) (value : Option Json) :
    (ofShape names shape).check enter lenient path value =
      (ofShape names' shape).check enter' lenient path value := by
  induction shape generalizing path value with
  | reference name => exact h name (.whole _) value
  | array element ih =>
    have helement := ih fun name hn => h name (hn.trans (.element (.whole _)))
    simp only [ofShape, check, helement]
  | object properties ih =>
    have hproperties := checkProperties_renumbered fun p hp =>
      ih p hp fun name hn => h name (hn.trans (.property (.whole _) hp))
    simp only [ofShape, check, hproperties, undeclared?_renumbered names names']
  | union members ih =>
    have hmembers := checkMembers_renumbered fun member hm =>
      ih member hm fun name hn => h name (hn.trans (.member (.whole _) hm))
    simp only [ofShape, check, hmembers]
  | _ => rfl

end Validator

namespace Sanitizer

variable {enterRebuild enterRebuild' : Nat → Json → Outcome Json}

theorem rebuildProperties_renumbered {properties : List Property}
    (h : ∀ p ∈ properties, ∀ path value,
      (ofShape names p.shape).rebuild enter enterRebuild lenient path value =
        (ofShape names' p.shape).rebuild enter' enterRebuild' lenient path value)
    (path : List String) (entries : List (String × Json)) :
    rebuildProperties enter enterRebuild lenient path entries (ofProperties names properties) =
      rebuildProperties enter' enterRebuild' lenient path entries
        (ofProperties names' properties) := by
  induction properties with
  | nil => rfl
  | cons p rest ih =>
    obtain ⟨name, shape, required⟩ := p
    obtain ⟨hfirst, hrest⟩ := List.forall_mem_cons.1 h
    simp only [ofProperties, rebuildProperties, hfirst, ih hrest]

theorem rebuildBranches_renumbered {members : List Shape}
    (hcheck : ∀ member ∈ members, ∀ path value,
      (Validator.ofShape names member).check enter lenient path value =
        (Validator.ofShape names' member).check enter' lenient path value)
    (h : ∀ member ∈ members, ∀ path value,
      (ofShape names member).rebuild enter enterRebuild lenient path value =
        (ofShape names' member).rebuild enter' enterRebuild' lenient path value)
    (path : List String) (last : Option Failure) (value : Json) :
    rebuildBranches enter enterRebuild lenient path last (ofMembers names members) value =
      rebuildBranches enter' enterRebuild' lenient path last (ofMembers names' members) value := by
  induction members generalizing last with
  | nil => rfl
  | cons member rest ih =>
    obtain ⟨hfirst, hrest⟩ := List.forall_mem_cons.1 h
    obtain ⟨hfirstcheck, hrestcheck⟩ := List.forall_mem_cons.1 hcheck
    simp only [ofMembers, rebuildBranches, hfirst, hfirstcheck, ih hrestcheck hrest]

/-- Rebuilding asks only about the aliases in its shape. -/
theorem rebuild_renumbered {shape : Shape}
    (h : ∀ name, Shape.Part (.alias name) shape → ∀ x,
      enter (names.idxOf name) x = enter' (names'.idxOf name) x)
    (h' : ∀ name, Shape.Part (.alias name) shape → ∀ v,
      enterRebuild (names.idxOf name) v = enterRebuild' (names'.idxOf name) v)
    (path : List String) (value : Json) :
    (ofShape names shape).rebuild enter enterRebuild lenient path value =
      (ofShape names' shape).rebuild enter' enterRebuild' lenient path value := by
  induction shape generalizing path value with
  | reference name => exact h' name (.whole _) value
  | array element ih =>
    have helement := ih (fun name hn => h name (hn.trans (.element (.whole _))))
      fun name hn => h' name (hn.trans (.element (.whole _)))
    simp only [ofShape, rebuild, helement]
  | object properties ih =>
    have hproperties := rebuildProperties_renumbered fun p hp =>
      ih p hp (fun name hn => h name (hn.trans (.property (.whole _) hp)))
        fun name hn => h' name (hn.trans (.property (.whole _) hp))
    simp only [ofShape, rebuild, hproperties]
  | union members ih =>
    have hmembers := rebuildBranches_renumbered
      (fun member hm => Validator.check_renumbered fun name hn =>
        h name (hn.trans (.member (.whole _) hm)))
      fun member hm => ih member hm (fun name hn => h name (hn.trans (.member (.whole _) hm)))
        fun name hn => h' name (hn.trans (.member (.whole _) hm))
    simp only [ofShape, rebuild, hmembers]
  | _ => rfl

end Sanitizer

/-! ## All steps -/

namespace Definitions

variable {ds ds' : Definitions} {S : String → Prop}

/-- Names that are bound to the same shapes in two sets of definitions, together with all names that
these shapes refer to. -/
def Shares (ds ds' : Definitions) (S : String → Prop) : Prop :=
  ∀ name, S name → ∃ shape, ds.get? name = some shape ∧ ds'.get? name = some shape ∧
    ∀ target, Shape.Part (.alias target) shape → S target

theorem WellFormed.checkWithin_shared (hw : ds.WellFormed) (hw' : ds'.WellFormed)
    (hS : ds.Shares ds' S) {name : String} (hname : S name) (budget : Nat) (value : Option Json) :
    ds.link.checkWithin lenient budget (ds.names.idxOf name) value =
      ds'.link.checkWithin lenient budget (ds'.names.idxOf name) value := by
  induction budget generalizing name value with
  | zero => rfl
  | succ budget ih =>
    obtain ⟨shape, hd, hd', htargets⟩ := hS name hname
    rw [checkWithin_succ ((get?_eq_some_iff hw.distinct).1 hd),
      checkWithin_succ ((get?_eq_some_iff hw'.distinct).1 hd')]
    exact Validator.check_renumbered (fun target ht => ih (htargets target ht)) [name] value

theorem WellFormed.rebuildWithin_shared (hw : ds.WellFormed) (hw' : ds'.WellFormed)
    (hS : ds.Shares ds' S) {name : String} (hname : S name) (budget : Nat) (value : Json) :
    ds.link.rebuildWithin lenient budget (ds.names.idxOf name) value =
      ds'.link.rebuildWithin lenient budget (ds'.names.idxOf name) value := by
  induction budget generalizing name value with
  | zero => rfl
  | succ budget ih =>
    obtain ⟨shape, hd, hd', htargets⟩ := hS name hname
    rw [rebuildWithin_succ ((get?_eq_some_iff hw.distinct).1 hd),
      rebuildWithin_succ ((get?_eq_some_iff hw'.distinct).1 hd')]
    exact Sanitizer.rebuild_renumbered
      (fun target ht => hw.checkWithin_shared hw' hS (htargets target ht) budget)
      (fun target ht => ih (htargets target ht)) [name] value

/-- A value is rebuilt with a budget that is enough. -/
theorem WellFormed.rebuildWithin_eq_report (hw : ds.WellFormed) {slot : Nat} {d : Definition}
    (h : ds.types[slot]? = some d) (value : Json) {budget : Nat}
    (hbudget : ds.link.enough (some value) ≤ budget) :
    ds.link.rebuildWithin lenient budget slot value =
      ((ds.binding slot d).report value
        (ds.link.rebuildWithin lenient (ds.link.budget value) slot value)).mapError .failed := by
  obtain ⟨result, hresult⟩ := hw.exists_rebuild h lenient value
  rw [hresult budget hbudget, hresult _ (ds.link.enough_le_budget value)]
  cases result <;> rfl

end Definitions

/-! ## Bindings -/

/-- Two bindings cannot be told apart. -/
structure Binding.Agrees (b b' : Binding) : Prop where
  /-- Checks have the same outcome, down to the failure. -/
  validate : ∀ lenient value, b.validate lenient value = b'.validate lenient value
  /-- The same values are created, or the same failures returned. -/
  create : ∀ value, b.create value = b'.create value
  /-- The schemas are the same. -/
  schema : b.schema = b'.schema
  /-- The declarations are the same. -/
  declaration : b.declaration = b'.declaration

namespace Definitions

variable {ds ds' : Definitions} {S : String → Prop}

/-- A shared name is bound to the same behaviour. -/
theorem WellFormed.agrees_of_shares (hw : ds.WellFormed) (hw' : ds'.WellFormed)
    (hS : ds.Shares ds' S) {name : String} (hname : S name) :
    ∃ b b', ds.link.get? name = some b ∧ ds'.link.get? name = some b' ∧ b.Agrees b' := by
  obtain ⟨shape, hd, hd', -⟩ := hS name hname
  have hslot := (get?_eq_some_iff hw.distinct).1 hd
  have hslot' := (get?_eq_some_iff hw'.distinct).1 hd'
  refine ⟨_, _, get?_link hw.distinct hslot, get?_link hw'.distinct hslot', ?_⟩
  have hvalidate : ∀ lenient value,
      (ds.binding (ds.names.idxOf name) ⟨name, shape⟩).validate lenient value =
        (ds'.binding (ds'.names.idxOf name) ⟨name, shape⟩).validate lenient value := by
    intro lenient value
    apply Outcome.mapError_failed_inj
    -- the two budgets differ, so both are compared with one that is enough for either
    rw [← hw.checkWithin_eq_validate hslot value (Nat.le_max_left _ _),
      ← hw'.checkWithin_eq_validate hslot' value (Nat.le_max_right _ _)]
    exact hw.checkWithin_shared hw' hS hname _ (some value)
  have hrebuild : ∀ value,
      (ds.binding (ds.names.idxOf name) ⟨name, shape⟩).report value
        (ds.link.rebuildWithin true (ds.link.budget value) (ds.names.idxOf name) value) =
      (ds'.binding (ds'.names.idxOf name) ⟨name, shape⟩).report value
        (ds'.link.rebuildWithin true (ds'.link.budget value) (ds'.names.idxOf name) value) := by
    intro value
    apply Outcome.mapError_failed_inj
    rw [← hw.rebuildWithin_eq_report hslot value (Nat.le_max_left _ _),
      ← hw'.rebuildWithin_eq_report hslot' value (Nat.le_max_right _ _)]
    exact hw.rebuildWithin_shared hw' hS hname _ value
  refine ⟨hvalidate, fun value => ?_, rfl, rfl⟩
  rw [Binding.create, Binding.create, hvalidate true value]
  exact congrArg _ (funext fun _ => hrebuild value)

/-- Definitions share their names with all definitions among which they occur. -/
theorem WellFormed.shares_of_subset (hw : ds.WellFormed) (hw' : ds'.WellFormed)
    (h : ∀ d ∈ ds.types, d ∈ ds'.types) : ds.Shares ds' (· ∈ ds.names) := by
  intro name hname
  obtain ⟨d, hd, rfl⟩ := List.mem_map.1 hname
  refine ⟨d.shape, get?_of_mem hw.distinct hd, get?_of_mem hw'.distinct (h d hd), ?_⟩
  exact (Shape.wellFormed_iff.1 (hw.shapes d hd)).1

theorem WellFormed.agrees_of_subset (hw : ds.WellFormed) (hw' : ds'.WellFormed)
    (h : ∀ d ∈ ds.types, d ∈ ds'.types) {name : String} {b : Binding}
    (hb : ds.link.get? name = some b) :
    ∃ b', ds'.link.get? name = some b' ∧ b.Agrees b' := by
  obtain ⟨slot, d, hd, hname, -⟩ := exists_of_get?_link hb
  have hmem : name ∈ ds.names := List.mem_map.2 ⟨d, List.mem_of_getElem? hd, hname⟩
  obtain ⟨b₁, b', hb₁, hb', hagrees⟩ := hw.agrees_of_shares hw' (hw.shares_of_subset hw' h) hmem
  rw [hb] at hb₁
  cases hb₁
  exact ⟨b', hb', hagrees⟩

/-- The order of definitions does not matter to whether they are sound. -/
theorem Sound.perm (hs : ds.Sound) (h : ds.types.Perm ds'.types) : ds'.Sound := by
  have hmem : ∀ d, d ∈ ds'.types ↔ d ∈ ds.types := fun d => h.mem_iff.symm
  have hexposes : ds'.Exposes = ds.Exposes := by
    funext name target
    simp only [Exposes, hmem]
  constructor
  · simpa only [hmem] using hs.visible
  · exact (h.map Definition.name).nodup hs.distinct
  · simpa only [hmem] using hs.resolved
  · simpa only [hmem] using hs.single
  · rw [hexposes]
    exact hs.grounded

end Definitions

/-- A binding depends only on the definitions that it leads to. Names that two sets of definitions
share, with everything they refer to, are bound to the same behaviour by both; in particular a name
keeps its behaviour when other definitions are added, and when the definitions are reordered, which
does not change whether they are compiled either. -/
theorem Registry.bindings_agree {ds ds' : Definitions} {r : Registry}
    (hr : Registry.compile ds = .ok r) :
    (∀ r', Registry.compile ds' = .ok r' → ∀ S, ds.Shares ds' S → ∀ name, S name →
      ∃ b b', r.get? name = some b ∧ r'.get? name = some b' ∧ b.Agrees b') ∧
    (∀ r', Registry.compile ds' = .ok r' → (∀ d ∈ ds.types, d ∈ ds'.types) →
      ∀ name b, r.get? name = some b → ∃ b', r'.get? name = some b' ∧ b.Agrees b') ∧
    (ds.types.Perm ds'.types → ∃ r', Registry.compile ds' = .ok r' ∧
      ∀ name b, r.get? name = some b → ∃ b', r'.get? name = some b' ∧ b.Agrees b') := by
  obtain ⟨hw, rfl⟩ := Registry.compile_eq_ok hr
  refine ⟨?_, ?_, ?_⟩
  · intro r' hr' S hS name hname
    obtain ⟨hw', rfl⟩ := Registry.compile_eq_ok hr'
    exact hw.agrees_of_shares hw' hS hname
  · intro r' hr' hsubset name b hb
    obtain ⟨hw', rfl⟩ := Registry.compile_eq_ok hr'
    exact hw.agrees_of_subset hw' hsubset hb
  · intro hperm
    have hsound := (Definitions.wellFormed_iff_sound.1 hw).perm hperm
    have hw' := Definitions.wellFormed_iff_sound.2 hsound
    refine ⟨ds'.link, Registry.compile_eq_ok_iff.2 ⟨hw', rfl⟩, fun name b hb => ?_⟩
    exact hw.agrees_of_subset hw' (fun d hd => hperm.mem_iff.1 hd) hb

/-- Trees and forests among other definitions, in another order. -/
def Definitions.grove : Definitions := ⟨none, [⟨"Loose", .string⟩, .forest, .tree]⟩

theorem Definitions.shares_grove : Definitions.forest.Shares .grove (· ∈ ["Forest", "Tree"]) := by
  have htree : Definition.tree.shape.WellFormed ["Forest", "Tree"] := by
    refine .object (by simp) fun p hp => ?_
    rcases List.mem_cons.1 hp with rfl | hp
    · exact .number
    · rw [List.mem_singleton.1 hp]
      exact .reference List.mem_cons_self
  have hforest : Definition.forest.shape.WellFormed ["Forest", "Tree"] :=
    .array (.reference (List.mem_cons_of_mem _ List.mem_cons_self))
  intro name hname
  rcases List.mem_cons.1 hname with rfl | hname
  · exact ⟨_, rfl, rfl, (Shape.wellFormed_iff.1 hforest).1⟩
  · rw [List.mem_singleton.1 hname]
    exact ⟨_, rfl, rfl, (Shape.wellFormed_iff.1 htree).1⟩

/-- `Tree` has another slot in the grove and means the same there, though `Loose` does not. And the
reversed definitions are compiled as well. -/
theorem Registry.tree_agrees :
    Registry.compile .forest = .ok Definitions.forest.link ∧
      Registry.compile .grove = .ok Definitions.grove.link ∧
      Definitions.forest.link.get? "Tree" = some (Definitions.forest.binding 0 .tree) ∧
      Definitions.grove.link.get? "Tree" = some (Definitions.grove.binding 2 .tree) ∧
      (Definitions.forest.binding 0 .tree).Agrees (Definitions.grove.binding 2 .tree) ∧
      ∃ r', Registry.compile ⟨none, [.loose, .forest, .tree]⟩ = .ok r' ∧
        ∃ b', r'.get? "Tree" = some b' ∧ (Definitions.forest.binding 0 .tree).Agrees b' := by
  have hr : Registry.compile .forest = .ok Definitions.forest.link := rfl
  have hr' : Registry.compile .grove = .ok Definitions.grove.link := rfl
  have hb : Definitions.forest.link.get? "Tree" = some (Definitions.forest.binding 0 .tree) := rfl
  have hb' : Definitions.grove.link.get? "Tree" = some (Definitions.grove.binding 2 .tree) := rfl
  have hname : "Tree" ∈ ["Forest", "Tree"] := List.mem_cons_of_mem _ List.mem_cons_self
  obtain ⟨hshared, -, -⟩ := @Registry.bindings_agree _ .grove _ hr
  obtain ⟨b, b', hfound, hfound', hagrees⟩ :=
    hshared _ hr' _ Definitions.shares_grove "Tree" hname
  rw [hb] at hfound
  rw [hb'] at hfound'
  cases hfound
  cases hfound'
  obtain ⟨-, -, hreordered⟩ := @Registry.bindings_agree _ ⟨none, [.loose, .forest, .tree]⟩ _ hr
  have hperm : Definitions.forest.types.Perm [.loose, .forest, .tree] :=
    (List.reverse_perm [Definition.loose, .forest, .tree]).trans (.refl _)
  obtain ⟨r', hcompiled, hkept⟩ := hreordered hperm
  exact ⟨hr, hr', hb, hb', hagrees, r', hcompiled, hkept "Tree" _ hb⟩

end JsonShape
