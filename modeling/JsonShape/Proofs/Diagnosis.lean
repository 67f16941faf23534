import JsonShape.Proofs.Acceptance

/-!
# Proofs: what errors say

An error of compilation is a statement about the definitions, and the statement is true. The steps
of compilation are taken in a fixed order, so an error also says that everything that is looked at
before is in order: a flaw in a shape is reported for good names only, and in the first shape that
has one; a circle of references is reported for flawless shapes only.

The circle is found as a path of slots. Slots stand for names one to one, so it is a circle of names
as well.
-/

namespace JsonShape

/-! ## Flaws in shapes -/

namespace Shape

variable {names : List String} {shape piece : Shape}

/-- A shape that cannot be compiled beside definitions of `names`: an alias in it has no target, or
an object in it declares a property twice. -/
def Flawed (names : List String) (shape : Shape) : Prop :=
  (∃ target, Part (.alias target) shape ∧ target ∉ names) ∨
    ∃ properties, Part (.object properties) shape ∧ ¬(properties.map Property.name).Nodup

theorem not_flawed_iff : ¬shape.Flawed names ↔ shape.WellFormed names := by
  rw [wellFormed_iff, Flawed, not_or]
  simp only [not_exists, not_and, Decidable.not_not]

/-- What is wrong with a shape inside the definition `owner`. -/
inductive HasFlaw (names : List String) (owner : String) (shape : Shape) : CompileError → Prop where
  | repeated {properties : List Property} {property : String}
      (h : Part (.object properties) shape)
      (htwice : 2 ≤ (properties.map Property.name).count property) :
      HasFlaw names owner shape (.duplicateProperty owner property)
  | dangling {target : String} (h : Part (.alias target) shape) (hundefined : target ∉ names) :
      HasFlaw names owner shape (.unresolvedAlias owner target)

theorem HasFlaw.flawed {owner : String} {e : CompileError} (h : shape.HasFlaw names owner e) :
    shape.Flawed names := by
  cases h with
  | @repeated properties property h htwice =>
    refine .inr ⟨properties, h, fun hd => ?_⟩
    have honce := List.nodup_iff_count_le_one.1 hd property
    omega
  | dangling h hundefined => exact .inl ⟨_, h, hundefined⟩

/-- What is wrong with a part is wrong with the whole. -/
theorem HasFlaw.of_part {owner : String} {e : CompileError} (h : piece.HasFlaw names owner e)
    (hpiece : piece.Part shape) : shape.HasFlaw names owner e := by
  cases h with
  | repeated h htwice => exact .repeated (h.trans hpiece) htwice
  | dangling h hundefined => exact .dangling (h.trans hpiece) hundefined

end Shape

namespace Validator

variable {slots : Slots} {names : List String} {owner : String} {e : CompileError}

/-- Properties fail at the second one of a name or at the shape of one. -/
theorem compileProperties_eq_error {properties : List Property} {seen : List String}
    (h : compileProperties slots owner seen properties = .error e) :
    (∃ name, e = .duplicateProperty owner name ∧
        2 ≤ (seen ++ properties.map Property.name).count name) ∨
      ∃ p ∈ properties, compile slots owner p.shape = .error e := by
  induction properties generalizing seen with
  | nil => cases h
  | cons p rest ih =>
    obtain ⟨name, shape, required⟩ := p
    rw [compileProperties] at h
    split at h
    · next hseen =>
      cases h
      refine .inl ⟨name, rfl, ?_⟩
      have hbefore : 0 < seen.count name := List.count_pos_iff.2 hseen
      rw [List.count_append, List.map_cons, List.count_cons_self]
      omega
    · rcases eq_error_of_bind_eq_error h with hfirst | ⟨validator, -, h⟩
      · exact .inr ⟨_, List.mem_cons_self, hfirst⟩
      · rcases eq_error_of_bind_eq_error h with hrest | ⟨others, -, hdone⟩
        · rcases ih hrest with ⟨other, he, htwice⟩ | ⟨p, hp, hfail⟩
          · refine .inl ⟨other, he, ?_⟩
            rw [List.map_cons, List.perm_middle.count_eq]
            exact htwice
          · exact .inr ⟨p, List.mem_cons_of_mem _ hp, hfail⟩
        · cases hdone

/-- Members fail at one of them. -/
theorem compileMembers_eq_error {members : List Shape}
    (h : compileMembers slots owner members = .error e) :
    ∃ member ∈ members, compile slots owner member = .error e := by
  induction members with
  | nil => cases h
  | cons member rest ih =>
    rw [compileMembers] at h
    rcases eq_error_of_bind_eq_error h with hfirst | ⟨validator, -, h⟩
    · exact ⟨member, List.mem_cons_self, hfirst⟩
    · rcases eq_error_of_bind_eq_error h with hrest | ⟨others, -, hdone⟩
      · obtain ⟨other, hmem, hfail⟩ := ih hrest
        exact ⟨other, List.mem_cons_of_mem _ hmem, hfail⟩
      · cases hdone

/-- A shape is refused for a flaw that it has. -/
theorem compile_eq_error (hslots : slots.Places names) {shape : Shape}
    (h : compile slots owner shape = .error e) : shape.HasFlaw names owner e := by
  induction shape with
  | reference name =>
    rw [compile] at h
    rcases eq_error_of_bind_eq_error h with hresolve | ⟨slot, -, hdone⟩
    · obtain ⟨rfl, hundefined⟩ := hslots.resolve_eq_error hresolve
      exact .dangling (.whole _) hundefined
    · cases hdone
  | array element ih =>
    rw [compile] at h
    rcases eq_error_of_bind_eq_error h with helement | ⟨inner, -, hdone⟩
    · exact (ih helement).of_part (Shape.Part.whole _).element
    · cases hdone
  | object properties ih =>
    rw [compile] at h
    rcases eq_error_of_bind_eq_error h with hproperties | ⟨compiled, -, hdone⟩
    · rcases compileProperties_eq_error hproperties with ⟨name, rfl, htwice⟩ | ⟨p, hp, hfail⟩
      · exact .repeated (.whole _) htwice
      · exact (ih p hp hfail).of_part ((Shape.Part.whole _).property hp)
    · cases hdone
  | union members ih =>
    rw [compile] at h
    rcases eq_error_of_bind_eq_error h with hmembers | ⟨compiled, -, hdone⟩
    · obtain ⟨member, hm, hfail⟩ := compileMembers_eq_error hmembers
      exact (ih member hm hfail).of_part ((Shape.Part.whole _).member hm)
    · cases hdone
  | _ => cases h

end Validator

/-- A definition is refused for a flaw of its shape. The sanitizer adds no error of its own. -/
theorem Entry.compile_eq_error {slots : Slots} {names : List String} (hslots : slots.Places names)
    {d : Definition} {e : CompileError} (h : Entry.compile slots d = .error e) :
    d.shape.HasFlaw names d.name e := by
  rcases eq_error_of_bind_eq_error h with hvalidator | ⟨validator, hvalidator, h⟩
  · exact Validator.compile_eq_error hslots hvalidator
  · have hw := (Validator.compile_eq_ok hslots hvalidator).1
    rw [Sanitizer.compile_of_wellFormed hslots hw] at h
    cases h

/-! ## Circles of names -/

namespace Cycle

variable {targets : Nat → List Nat} {cycle : List Nat}

/-- Every vertex of a circuit is the target of an edge. -/
theorem Circuit.exists_edge (h : Circuit targets cycle) {slot : Nat} (hs : slot ∈ cycle) :
    ∃ vertex, Edge targets vertex slot := by
  obtain ⟨first, walk, rfl, -, hchain⟩ := h
  -- the first vertex stands at the end as well, so it is enough to look at those after it
  have hafter : slot ∈ walk ++ [first] := by
    rcases List.mem_cons.1 hs with rfl | hs
    · exact List.mem_append_right _ List.mem_cons_self
    · exact hs
  have hpairs := (hchain.imp fun _ _ hedge => Relation.TransGen.single hedge).pairwise
  have hreached := List.rel_of_pairwise_cons hpairs hafter
  obtain ⟨vertex, -, hedge⟩ := Relation.TransGen.tail'_iff.1 hreached
  exact ⟨vertex, hedge⟩

end Cycle

namespace Definitions

variable {ds : Definitions}

/-- A name refers to another one without a guard. -/
def Refers (ds : Definitions) (name target : String) : Prop :=
  ∃ shape, ds.get? name = some shape ∧ target ∈ shape.unguarded

/-- A circle of names: each refers to the next, the last is the first again, and those before it are
distinct. -/
def Circle (ds : Definitions) (names : List String) : Prop :=
  ∃ name walk, names = name :: (walk ++ [name]) ∧ (name :: walk).Nodup ∧ names.IsChain ds.Refers

theorem refers_of_exposes (hd : ds.names.Nodup) {name target : String}
    (h : ds.Exposes name target) : ds.Refers name target := by
  obtain ⟨d, hmem, rfl, hexposed⟩ := h
  exact ⟨d.shape, get?_of_mem hd hmem, Shape.mem_unguarded_iff.2 hexposed⟩

/-- The slots of a circuit hold names. -/
theorem lt_of_mem_circuit {cycle : List Nat}
    (h : Cycle.Circuit ds.link.unguardedTargets cycle) :
    ∀ slot ∈ cycle, slot < ds.names.length := by
  intro slot hs
  obtain ⟨vertex, hedge⟩ := h.exists_edge hs
  rw [names, List.length_map]
  exact unguardedTargets_lt hedge

/-- The names in the slots of a circuit form a circle. -/
theorem circle_of_circuit (hd : ds.names.Nodup) {cycle : List Nat}
    (h : Cycle.Circuit ds.link.unguardedTargets cycle) :
    ds.Circle (cycle.map fun slot => ds.names[slot]?.getD "") := by
  have hbelow := lt_of_mem_circuit h
  obtain ⟨slot, walk, rfl, hdistinct, hchain⟩ := h
  have hinjective : ∀ a ∈ slot :: walk, ∀ b ∈ slot :: walk,
      ds.names[a]?.getD "" = ds.names[b]?.getD "" → a = b := by
    intro a ha b hb heq
    have hsub : slot :: walk ⊆ slot :: (walk ++ [slot]) :=
      List.cons_subset_cons _ (List.subset_append_left _ _)
    rw [List.getElem?_eq_getElem (hbelow a (hsub ha)),
      List.getElem?_eq_getElem (hbelow b (hsub hb))] at heq
    exact (hd.getElem_inj_iff).1 heq
  refine ⟨ds.names[slot]?.getD "", walk.map fun slot => ds.names[slot]?.getD "", ?_, ?_, ?_⟩
  · rw [List.map_cons, List.map_append, List.map_singleton]
  · rw [← List.map_cons (f := fun slot => ds.names[slot]?.getD "")]
    exact hdistinct.map_on hinjective
  · exact List.isChain_map_of_isChain _
      (fun _ _ hedge => refers_of_exposes hd (exposes_of_edge hedge)) hchain

/-- What the search reports is a circle of names. -/
theorem circle_of_unguardedCycle? (hd : ds.names.Nodup) {circle : List String}
    (h : ds.link.unguardedCycle? = some circle) : ds.Circle circle := by
  obtain ⟨cycle, hfind, rfl⟩ := Option.map_eq_some_iff.1 h
  have hcircuit := Cycle.circuit_of_find?_eq_some hfind
  have hnames : (cycle.filterMap fun slot => ds.link.names[slot]?) =
      cycle.map fun slot => ds.names[slot]?.getD "" := by
    rw [List.filterMap_eq_map_iff_forall_eq_some]
    intro slot hs
    rw [names_link, List.getElem?_eq_getElem (lt_of_mem_circuit hcircuit slot hs)]
    rfl
  rw [hnames]
  exact circle_of_circuit hd hcircuit

/-! ## What errors say of definitions -/

/-- Every name has a character that is not white space, and no two definitions share a name. -/
structure WellNamed (ds : Definitions) : Prop where
  visible : ∀ d ∈ ds.types, ∃ c ∈ d.name.toList, Text.isBlank c = false
  distinct : ds.names.Nodup

/-- The first definition, in their order, that has a flawed shape. -/
def FirstFlawed (ds : Definitions) (d : Definition) : Prop :=
  ∃ before after, ds.types = before ++ d :: after ∧
    (∀ e ∈ before, ¬e.shape.Flawed ds.names) ∧ d.shape.Flawed ds.names

theorem wellNamed_of_assign {slots : Slots} (h : Slots.empty.assign 0 ds.names = .ok slots) :
    ds.WellNamed ∧ slots = .ofNames ds.names := by
  obtain ⟨hnamed, hdistinct, hslots⟩ := @Slots.assign_eq_ok _ [] _ List.nodup_nil h
  exact ⟨⟨visible_iff.1 hnamed, hdistinct⟩, hslots⟩

/-- Definitions are refused at the first that has a flawed shape. -/
theorem firstFlawed_of_mapM_eq_error {e : CompileError} (hd : ds.names.Nodup)
    (h : ds.types.mapM (Entry.compile (.ofNames ds.names)) = .error e) :
    ∃ d, ds.FirstFlawed d ∧ d.shape.HasFlaw ds.names d.name e := by
  obtain ⟨before, d, after, htypes, hbefore, hfail⟩ := exists_of_mapM_eq_error h
  have hslots := Slots.places_ofNames hd
  have hflaw := Entry.compile_eq_error hslots hfail
  refine ⟨d, ⟨before, after, htypes, fun other hother => ?_, hflaw.flawed⟩, hflaw⟩
  obtain ⟨entry, hentry⟩ := hbefore other hother
  exact Shape.not_flawed_iff.2 (Entry.compile_eq_ok hslots hentry).1

end Definitions

namespace CompileError

/-- What an error says of definitions. -/
def Holds (ds : Definitions) : CompileError → Prop
  | .emptyName => ∃ d ∈ ds.types, ∀ c ∈ d.name.toList, Text.isBlank c = true
  | .duplicateName name => 2 ≤ ds.names.count name
  | .duplicateProperty name property =>
    ds.WellNamed ∧ ∃ d, ds.FirstFlawed d ∧ d.name = name ∧
      ∃ properties, Shape.Part (.object properties) d.shape ∧
        2 ≤ (properties.map Property.name).count property
  | .unresolvedAlias name target =>
    ds.WellNamed ∧ ∃ d, ds.FirstFlawed d ∧ d.name = name ∧ Shape.Part (.alias target) d.shape ∧
      ∀ other ∈ ds.types, other.name ≠ target
  | .unguardedCycle circle =>
    ds.WellNamed ∧ (∀ d ∈ ds.types, ¬d.shape.Flawed ds.names) ∧ ds.Circle circle ∧
      (unguardedCycle circle).message = "unguarded reference cycle: " ++ " -> ".intercalate circle

end CompileError

/-- What is wrong with the first flawed shape holds of the definitions. -/
theorem Shape.HasFlaw.holds {ds : Definitions} {d : Definition} {e : CompileError}
    (h : d.shape.HasFlaw ds.names d.name e) (hnamed : ds.WellNamed) (hfirst : ds.FirstFlawed d) :
    e.Holds ds := by
  cases h with
  | repeated h htwice => exact ⟨hnamed, d, hfirst, rfl, _, h, htwice⟩
  | dangling h hundefined =>
    refine ⟨hnamed, d, hfirst, rfl, h, ?_⟩
    rintro other hother rfl
    exact hundefined (List.mem_map_of_mem hother)

/-- Compilation fails at the names, at the first flawed shape or at a circle. -/
theorem Registry.compile_eq_error {ds : Definitions} {e : CompileError}
    (h : Registry.compile ds = .error e) :
    Slots.empty.assign 0 ds.names = .error e ∨ ds.WellNamed ∧
      ((∃ d, ds.FirstFlawed d ∧ d.shape.HasFlaw ds.names d.name e) ∨
        (∀ d ∈ ds.types, ¬d.shape.Flawed ds.names) ∧
          ∃ circle, ds.Circle circle ∧ e = .unguardedCycle circle) := by
  rw [Registry.compile] at h
  rcases eq_error_of_bind_eq_error h with hnames | ⟨slots, hslots, h⟩
  · exact .inl hnames
  obtain ⟨hnamed, rfl⟩ := Definitions.wellNamed_of_assign hslots
  refine .inr ⟨hnamed, ?_⟩
  rcases eq_error_of_bind_eq_error h with hentries | ⟨entries, hentries, h⟩
  · exact .inl (Definitions.firstFlawed_of_mapM_eq_error hnamed.distinct hentries)
  · obtain ⟨hshapes, hlink⟩ := Definitions.link_of_mapM_eq_ok hnamed.distinct hentries
    dsimp only at h
    rw [hlink] at h
    cases hcycle : ds.link.unguardedCycle? with
    | none =>
      rw [hcycle] at h
      cases h
    | some circle =>
      rw [hcycle] at h
      cases h
      have hcircle := Definitions.circle_of_unguardedCycle? hnamed.distinct hcycle
      exact .inr ⟨fun d hd => Shape.not_flawed_iff.2 (hshapes d hd), circle, hcircle, rfl⟩

/-- Whenever compilation fails, the error it reports holds of the definitions: names are looked at
first, then the shapes in their order, and circles last. -/
theorem Registry.holds_of_compile_eq_error {ds : Definitions} {e : CompileError}
    (h : Registry.compile ds = .error e) : e.Holds ds := by
  rcases compile_eq_error h with hnames | ⟨hnamed, ⟨d, hfirst, hflaw⟩ | ⟨hflawless, hcircle⟩⟩
  · rcases @Slots.assign_eq_error [] _ _ List.nodup_nil hnames with
      ⟨rfl, name, hmem, hblank⟩ | ⟨name, rfl, htwice⟩
    · obtain ⟨d, hd, rfl⟩ := List.mem_map.1 hmem
      exact ⟨d, hd, List.all_eq_true.1 hblank⟩
    · exact htwice
  · exact hflaw.holds hnamed hfirst
  · obtain ⟨circle, hcircle, rfl⟩ := hcircle
    exact ⟨hnamed, hflawless, hcircle, rfl⟩

/-- A name from which a circle is reached that it is not on itself. -/
def Definitions.knot : Definitions :=
  ⟨none, [⟨"Rope", .union [.string, .alias "Left"]⟩,
    ⟨"Left", .union [.null, .union [.array (.alias "Left"), .alias "Right"], .any, .alias "Rope"]⟩,
    ⟨"Right", .alias "Left"⟩]⟩

/-- The circle is reported without the name from which it was reached. -/
theorem Registry.knot_refused :
    Registry.compile .knot = .error (.unguardedCycle ["Left", "Right", "Left"]) ∧
      CompileError.Holds .knot (.unguardedCycle ["Left", "Right", "Left"]) := by
  have h : Registry.compile .knot = .error (.unguardedCycle ["Left", "Right", "Left"]) := rfl
  exact ⟨h, holds_of_compile_eq_error h⟩

end JsonShape
