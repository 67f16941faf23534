import JsonShape.Proofs.Circuits
import JsonShape.Proofs.Termination
import JsonShape.Proofs.Occurrences

/-!
# Proofs: which definitions are compiled

Compilation accepts exactly the definitions that are well formed, and being well formed can be said
without compilation: every name is visible, names are distinct, aliases have targets, objects do not
repeat properties, and no chain of exposed names leads from a name back to it.

The first half of this is that every step of compilation succeeds on what is well formed; the second
is that the search for cycles, which runs over slots, decides whether the names have a cycle.
-/

namespace JsonShape

open Relation

/-! ## Every step succeeds -/

section Steps

variable {slots : Slots} {names : List String} {owner : String}

namespace Validator

theorem compileProperties_of_wellFormed {properties : List Property} {seen : List String}
    (ih : ∀ p ∈ properties, compile slots owner p.shape = .ok (ofShape names p.shape))
    (hnew : ∀ p ∈ properties, p.name ∉ seen) (hd : (properties.map Property.name).Nodup) :
    compileProperties slots owner seen properties = .ok (ofProperties names properties) := by
  induction properties generalizing seen with
  | nil => rfl
  | cons p rest ihrest =>
    obtain ⟨name, shape, required⟩ := p
    obtain ⟨hname, hdrest⟩ := List.nodup_cons.1 hd
    have hfirst := ih _ List.mem_cons_self
    have hrest : compileProperties slots owner (name :: seen) rest =
        .ok (ofProperties names rest) := by
      refine ihrest (fun p hp => ih p (List.mem_cons_of_mem _ hp)) ?_ hdrest
      intro p hp hseen
      rcases List.mem_cons.1 hseen with heq | hseen
      · exact hname (List.mem_map.2 ⟨p, hp, heq⟩)
      · exact hnew p (List.mem_cons_of_mem _ hp) hseen
    rw [compileProperties, if_neg (hnew _ List.mem_cons_self), hfirst, hrest]
    rfl

theorem compileMembers_of_wellFormed {members : List Shape}
    (ih : ∀ member ∈ members, compile slots owner member = .ok (ofShape names member)) :
    compileMembers slots owner members = .ok (ofMembers names members) := by
  induction members with
  | nil => rfl
  | cons member rest ihrest =>
    have hrest := ihrest fun m hm => ih m (List.mem_cons_of_mem _ hm)
    rw [compileMembers, ih _ List.mem_cons_self, hrest]
    rfl

theorem compile_of_wellFormed (hslots : slots.Places names) {shape : Shape}
    (hw : shape.WellFormed names) :
    compile slots owner shape = .ok (ofShape names shape) := by
  induction hw with
  | reference h =>
    rw [compile, hslots.resolve_of_mem h]
    rfl
  | array _ ih =>
    rw [compile, ih]
    rfl
  | object hd _ ih =>
    rw [compile, compileProperties_of_wellFormed ih (fun _ _ => List.not_mem_nil) hd]
    rfl
  | union _ ih =>
    rw [compile, compileMembers_of_wellFormed ih]
    rfl
  | _ => rfl

end Validator

namespace Sanitizer

theorem compileProperties_of_wellFormed {properties : List Property}
    (ih : ∀ p ∈ properties, compile slots owner p.shape = .ok (ofShape names p.shape)) :
    compileProperties slots owner properties = .ok (ofProperties names properties) := by
  induction properties with
  | nil => rfl
  | cons p rest ihrest =>
    obtain ⟨name, shape, required⟩ := p
    have hfirst := ih _ List.mem_cons_self
    have hrest := ihrest fun p hp => ih p (List.mem_cons_of_mem _ hp)
    rw [compileProperties, hfirst, hrest]
    rfl

theorem compileMembers_of_wellFormed (hslots : slots.Places names) {members : List Shape}
    (hw : ∀ member ∈ members, member.WellFormed names)
    (ih : ∀ member ∈ members, compile slots owner member = .ok (ofShape names member)) :
    compileMembers slots owner members = .ok (ofMembers names members) := by
  induction members with
  | nil => rfl
  | cons member rest ihrest =>
    have hrest := ihrest (fun m hm => hw m (List.mem_cons_of_mem _ hm))
      fun m hm => ih m (List.mem_cons_of_mem _ hm)
    rw [compileMembers, Validator.compile_of_wellFormed hslots (hw _ List.mem_cons_self),
      ih _ List.mem_cons_self, hrest]
    rfl

theorem compile_of_wellFormed (hslots : slots.Places names) {shape : Shape}
    (hw : shape.WellFormed names) :
    compile slots owner shape = .ok (ofShape names shape) := by
  induction hw with
  | reference h =>
    rw [compile, hslots.resolve_of_mem h]
    rfl
  | array _ ih =>
    rw [compile, ih]
    rfl
  | object _ _ ih =>
    rw [compile, compileProperties_of_wellFormed ih]
    rfl
  | union h ih =>
    rw [compile, compileMembers_of_wellFormed hslots h ih]
    rfl
  | _ => rfl

end Sanitizer

end Steps

theorem Entry.compile_of_wellFormed {slots : Slots} {names : List String}
    (hslots : slots.Places names) {d : Definition} (hw : d.shape.WellFormed names) :
    Entry.compile slots d = .ok (.ofDefinition names d) := by
  rw [Entry.compile, Validator.compile_of_wellFormed hslots hw,
    Sanitizer.compile_of_wellFormed hslots hw]
  rfl

theorem Entry.mapM_compile {slots : Slots} {names : List String} (hslots : slots.Places names)
    {types : List Definition} (hw : ∀ d ∈ types, d.shape.WellFormed names) :
    types.mapM (Entry.compile slots) = .ok (types.map (Entry.ofDefinition names)) := by
  induction types with
  | nil => rfl
  | cons d rest ih =>
    have hrest := ih fun d hd => hw d (List.mem_cons_of_mem _ hd)
    rw [List.mapM_cons, Entry.compile_of_wellFormed hslots (hw d List.mem_cons_self), hrest]
    rfl

/-- Compilation accepts the well-formed definitions and no others. -/
theorem Registry.compile_eq_ok_iff {ds : Definitions} {r : Registry} :
    Registry.compile ds = .ok r ↔ ds.WellFormed ∧ r = ds.link := by
  constructor
  · exact Registry.compile_eq_ok
  · rintro ⟨hw, rfl⟩
    have hslots : Slots.empty.assign 0 ds.names = .ok (.ofNames ds.names) :=
      @Slots.assign_of_nodup [] ds.names hw.named hw.distinct
    have hentries := Entry.mapM_compile (Slots.places_ofNames hw.distinct) hw.shapes
    have hlink : (⟨ds.types.map (Entry.ofDefinition ds.names), .ofNames ds.names⟩ : Registry) =
        ds.link := rfl
    rw [Registry.compile, hslots, ok_bind, hentries, ok_bind, hlink]
    dsimp only
    rw [hw.acyclic]
    rfl

/-! ## Cycles among slots and among names -/

namespace Definitions

variable {ds : Definitions}

/-- A definition exposes a name. -/
def Exposes (ds : Definitions) (name target : String) : Prop :=
  ∃ d ∈ ds.types, d.name = name ∧ d.shape.Exposed target

/-- An edge between slots is one between the names in them, and the other way round. -/
theorem exposes_of_edge {slot target : Nat} (h : Cycle.Edge ds.link.unguardedTargets slot target) :
    ds.Exposes (ds.names[slot]?.getD "") (ds.names[target]?.getD "") := by
  cases hd : ds.types[slot]? with
  | none =>
    rw [Cycle.Edge, Registry.unguardedTargets, entries_link, hd] at h
    exact absurd h List.not_mem_nil
  | some d =>
    obtain ⟨name, hname, hslot⟩ := (mem_unguardedTargets hd).1 h
    refine ⟨d, List.mem_of_getElem? hd, ?_, ?_⟩
    · rw [names_getElem? hd]
      rfl
    · rw [Slots.getElem?_of_find?_ofNames hslot]
      exact Shape.mem_unguarded_iff.1 hname

theorem edge_of_exposes (hdistinct : ds.names.Nodup)
    (hshapes : ∀ d ∈ ds.types, d.shape.WellFormed ds.names) {name target : String}
    (h : ds.Exposes name target) :
    Cycle.Edge ds.link.unguardedTargets (ds.names.idxOf name) (ds.names.idxOf target) := by
  obtain ⟨d, hmem, rfl, hexposed⟩ := h
  obtain ⟨slot, hslot⟩ := List.getElem?_of_mem hmem
  have hunguarded : target ∈ d.shape.unguarded := Shape.mem_unguarded_iff.2 hexposed
  have htarget : target ∈ ds.names := (hshapes d hmem).unguarded_mem target hunguarded
  rw [idxOf_name hdistinct hslot]
  exact (mem_unguardedTargets hslot).2
    ⟨target, hunguarded, find?_slots_of_mem hdistinct htarget⟩

/-- The search over slots finds nothing exactly if no name leads back to itself. -/
theorem unguardedCycle?_eq_none_iff (hdistinct : ds.names.Nodup)
    (hshapes : ∀ d ∈ ds.types, d.shape.WellFormed ds.names) :
    ds.link.unguardedCycle? = none ↔ ∀ name, ¬TransGen ds.Exposes name name := by
  have hfind : ds.link.unguardedCycle? = none ↔
      ∀ slot, ¬TransGen (Cycle.Edge ds.link.unguardedTargets) slot slot := by
    rw [Registry.unguardedCycle?, Option.map_eq_none_iff, length_link]
    exact Cycle.find?_eq_none_iff fun _ _ ht => unguardedTargets_lt ht
  rw [hfind]
  constructor
  · intro hslots name hcycle
    exact hslots _ (hcycle.lift ds.names.idxOf fun _ _ h => edge_of_exposes hdistinct hshapes h)
  · intro hnames slot hcycle
    exact hnames _ (hcycle.lift (fun slot => ds.names[slot]?.getD "") fun _ _ h =>
      exposes_of_edge h)

/-! ## Well-formed definitions, said by names -/

/-- What definitions have to meet, said of names and parts of shapes only. -/
structure Sound (ds : Definitions) : Prop where
  /-- Every name has a character that is not white space. -/
  visible : ∀ d ∈ ds.types, ∃ c ∈ d.name.toList, Text.isBlank c = false
  /-- No two definitions share a name. -/
  distinct : (ds.types.map Definition.name).Nodup
  /-- Every alias, wherever it occurs, names a definition. -/
  resolved : ∀ d ∈ ds.types, ∀ target, Shape.Part (.alias target) d.shape →
    ∃ e ∈ ds.types, e.name = target
  /-- No object, wherever it occurs, declares a property twice. -/
  single : ∀ d ∈ ds.types, ∀ properties, Shape.Part (.object properties) d.shape →
    (properties.map Property.name).Nodup
  /-- No name leads back to itself through exposed names. -/
  grounded : ∀ name, ¬TransGen ds.Exposes name name

theorem visible_iff {ds : Definitions} :
    (∀ name ∈ ds.names, Text.allBlank name.toList = false) ↔
      ∀ d ∈ ds.types, ∃ c ∈ d.name.toList, Text.isBlank c = false := by
  rw [names, List.forall_mem_map]
  simp [Text.allBlank, List.all_eq_false]

/-- The shapes are well formed if their aliases are resolved and their objects are single. -/
theorem shapes_iff {ds : Definitions} :
    (∀ d ∈ ds.types, d.shape.WellFormed ds.names) ↔
      (∀ d ∈ ds.types, ∀ target, Shape.Part (.alias target) d.shape →
        ∃ e ∈ ds.types, e.name = target) ∧
      ∀ d ∈ ds.types, ∀ properties, Shape.Part (.object properties) d.shape →
        (properties.map Property.name).Nodup := by
  simp only [Shape.wellFormed_iff, names, List.mem_map]
  exact ⟨fun h => ⟨fun d hd => (h d hd).1, fun d hd => (h d hd).2⟩,
    fun h d hd => ⟨h.1 d hd, h.2 d hd⟩⟩

theorem wellFormed_iff_sound {ds : Definitions} : ds.WellFormed ↔ ds.Sound := by
  constructor
  · intro hw
    obtain ⟨hresolved, hsingle⟩ := shapes_iff.1 hw.shapes
    have hgrounded := (unguardedCycle?_eq_none_iff hw.distinct hw.shapes).1 hw.acyclic
    exact ⟨visible_iff.1 hw.named, hw.distinct, hresolved, hsingle, hgrounded⟩
  · intro hs
    have hshapes : ∀ d ∈ ds.types, d.shape.WellFormed ds.names :=
      shapes_iff.2 ⟨hs.resolved, hs.single⟩
    have hacyclic := (unguardedCycle?_eq_none_iff hs.distinct hshapes).2 hs.grounded
    exact ⟨visible_iff.2 hs.visible, hs.distinct, hshapes, hacyclic⟩

end Definitions

/-- Compilation accepts exactly the sound definitions. -/
theorem Registry.compiles_iff_sound (ds : Definitions) :
    (∃ r, Registry.compile ds = .ok r) ↔ ds.Sound := by
  rw [← Definitions.wellFormed_iff_sound]
  constructor
  · rintro ⟨r, hr⟩
    exact (Registry.compile_eq_ok_iff.1 hr).1
  · intro hw
    exact ⟨ds.link, Registry.compile_eq_ok_iff.2 ⟨hw, rfl⟩⟩

end JsonShape
