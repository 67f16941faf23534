import JsonShape.Proofs.Locality

/-!
# Proofs: checking and rebuilding end

A reference leads to a shape of lower rank, or else to something below the value. The *weight* of a
slot and a value puts the two together: every question that is asked while a value is checked
against the shape in a slot has a smaller weight. So a budget above the weight is never used up, and
a larger budget gives the same result.
-/

namespace JsonShape

namespace Definitions

variable {ds : Definitions} {slot : Nat} {d : Definition}

/-- A weight of slots and heights that falls along every question of a check. -/
structure Weight (ds : Definitions) (weight : Nat → Nat → Nat) : Prop where
  /-- It is bounded by the number of definitions and the height. -/
  bounded : ∀ slot < ds.types.length, ∀ height, weight slot height < ds.types.length * (height + 1)
  /-- It falls along unguarded references. -/
  unguarded : ∀ slot d, ds.types[slot]? = some d → ∀ name ∈ d.shape.unguarded, ∀ height,
    weight (ds.names.idxOf name) height < weight slot height
  /-- It falls with the height, wherever a reference leads. -/
  below : ∀ slot other, other < ds.types.length → ∀ lower height, lower < height →
    weight other lower < weight slot height

theorem mem_unguardedTargets (h : ds.types[slot]? = some d) {target : Nat} :
    target ∈ ds.link.unguardedTargets slot ↔
      ∃ name ∈ d.shape.unguarded, ds.link.slots.find? name = some target := by
  have hentry : ds.link.entries[slot]? = some (.ofDefinition ds.names d) := by
    rw [entries_link, h]
    rfl
  rw [Registry.unguardedTargets, hentry]
  exact List.mem_filterMap

theorem unguardedTargets_lt {target : Nat} (h : target ∈ ds.link.unguardedTargets slot) :
    target < ds.types.length := by
  cases hd : ds.types[slot]? with
  | none =>
    rw [Registry.unguardedTargets, entries_link, hd] at h
    exact absurd h List.not_mem_nil
  | some d =>
    obtain ⟨name, -, hname⟩ := (mem_unguardedTargets hd).1 h
    have hslot : ds.names[target]? = some name := Slots.getElem?_of_find?_ofNames hname
    obtain ⟨hlt, -⟩ := List.getElem?_eq_some_iff.1 hslot
    rwa [names, List.length_map] at hlt

/-- Definitions without a circle of unguarded references have a weight. -/
theorem WellFormed.exists_weight (hw : ds.WellFormed) : ∃ weight, ds.Weight weight := by
  have hfind := Option.map_eq_none_iff.1 hw.acyclic
  rw [length_link] at hfind
  obtain ⟨rank, hlt, hrank⟩ :=
    Cycle.exists_rank_of_find?_eq_none (fun _ _ ht => unguardedTargets_lt ht) hfind
  refine ⟨fun slot height => ds.types.length * height + rank slot, ?_, ?_, ?_⟩
  · intro slot hslot height
    have := hlt slot hslot
    rw [Nat.mul_succ]
    omega
  · intro slot d hd name hname height
    have hmem := (hw.shapes d (List.mem_of_getElem? hd)).unguarded_mem name hname
    have htarget := (mem_unguardedTargets hd).2 ⟨name, hname, find?_slots_of_mem hw.distinct hmem⟩
    have hslot : slot < ds.types.length := (List.getElem?_eq_some_iff.1 hd).1
    have := hrank slot hslot _ htarget
    omega
  · intro slot other hother lower height hlower
    have := hlt other hother
    have hmul := Nat.mul_le_mul_left ds.types.length hlower
    rw [Nat.mul_succ] at hmul
    omega

/-- What holds of all slots and values of smaller weight holds of all that can be asked. -/
theorem Weight.asked {weight : Nat → Nat → Nat} (hweight : ds.Weight weight) (hw : ds.WellFormed)
    {α : Type} {height : α → Nat} {P : Nat → α → Prop} (h : ds.types[slot]? = some d) {value : α}
    (hP : ∀ other e x, ds.types[other]? = some e →
      weight other (height x) < weight slot (height value) → P other x) :
    Asked height ds.names P d.shape value := by
  constructor
  · intro name hname
    have hmem := (hw.shapes d (List.mem_of_getElem? h)).unguarded_mem name hname
    obtain ⟨shape, hshape⟩ := exists_of_mem_names hw.distinct hmem
    exact hP _ _ value hshape (hweight.unguarded slot d h name hname _)
  · intro name hname lower hlower
    obtain ⟨shape, hshape⟩ := exists_of_mem_names hw.distinct hname
    have hlt := (List.getElem?_eq_some_iff.1 hshape).1
    exact hP _ _ lower hshape (hweight.below slot _ hlt _ _ hlower)

/-! ## One step -/

theorem checkWithin_succ (h : ds.types[slot]? = some d) (lenient : Bool) (budget : Nat)
    (value : Option Json) :
    ds.link.checkWithin lenient (budget + 1) slot value =
      (Validator.ofShape ds.names d.shape).check (ds.link.checkWithin lenient budget) lenient
        [d.name] value := by
  rw [Registry.checkWithin, entries_link, h]
  rfl

theorem rebuildWithin_succ (h : ds.types[slot]? = some d) (lenient : Bool) (budget : Nat)
    (value : Json) :
    ds.link.rebuildWithin lenient (budget + 1) slot value =
      (Sanitizer.ofShape ds.names d.shape).rebuild (ds.link.checkWithin lenient budget)
        (ds.link.rebuildWithin lenient budget) lenient [d.name] value := by
  rw [Registry.rebuildWithin, entries_link, h]
  rfl

/-! ## All steps -/

variable {weight : Nat → Nat → Nat} {lenient : Bool}

/-- A check whose budget is above its weight is not stuck, and a larger budget changes nothing. -/
theorem WellFormed.checkWithin_settles (hw : ds.WellFormed) (hweight : ds.Weight weight)
    {budget more : Nat} {value : Option Json} (h : ds.types[slot]? = some d)
    (hbudget : weight slot (Json.height value) < budget) (hmore : budget ≤ more) :
    (ds.link.checkWithin lenient budget slot value).Settles
      (ds.link.checkWithin lenient more slot value) := by
  induction budget generalizing slot d value more with
  | zero => exact absurd hbudget (Nat.not_lt_zero _)
  | succ budget ih =>
    have hshape := hw.shapes d (List.mem_of_getElem? h)
    obtain ⟨more, rfl⟩ : ∃ k, more = k + 1 := ⟨more - 1, by omega⟩
    rw [checkWithin_succ h, checkWithin_succ h]
    refine Validator.check_settles hshape (hweight.asked hw h fun other e x he hlt => ?_)
    exact ih he (by omega) (by omega)

/-- The same of rebuilding. -/
theorem WellFormed.rebuildWithin_settles (hw : ds.WellFormed) (hweight : ds.Weight weight)
    {budget more : Nat} {value : Json} (h : ds.types[slot]? = some d)
    (hbudget : weight slot (Json.height (some value)) < budget) (hmore : budget ≤ more) :
    (ds.link.rebuildWithin lenient budget slot value).Settles
      (ds.link.rebuildWithin lenient more slot value) := by
  induction budget generalizing slot d value more with
  | zero => exact absurd hbudget (Nat.not_lt_zero _)
  | succ budget ih =>
    have hshape := hw.shapes d (List.mem_of_getElem? h)
    obtain ⟨more, rfl⟩ : ∃ k, more = k + 1 := ⟨more - 1, by omega⟩
    rw [rebuildWithin_succ h, rebuildWithin_succ h]
    refine Sanitizer.rebuild_settles hshape (hweight.asked hw h fun other e x he hlt => ?_)
      (hweight.asked hw h fun other e x he hlt => ?_)
    · exact hw.checkWithin_settles hweight he (by omega) (by omega)
    · exact ih he (by omega) (by omega)

end Definitions

/-- A budget that a check of a value, or of absence, does not use up. -/
def Registry.enough (r : Registry) (value : Option Json) : Nat :=
  r.entries.length * (Json.height value + 1)

/-- The budget that values are checked with is enough. -/
theorem Registry.enough_le_budget (r : Registry) (value : Json) :
    r.enough (some value) ≤ r.budget value :=
  Nat.le_succ _

namespace Definitions

variable {ds : Definitions} {slot : Nat} {d : Definition}

/-- A check has a result, which is the same for every budget that is enough. -/
theorem WellFormed.exists_check (hw : ds.WellFormed) (h : ds.types[slot]? = some d)
    (lenient : Bool) (value : Option Json) :
    ∃ result : Except Failure Unit, ∀ budget, ds.link.enough value ≤ budget →
      ds.link.checkWithin lenient budget slot value = result.mapError .failed := by
  obtain ⟨weight, hweight⟩ := hw.exists_weight
  have hbound := hweight.bounded slot (List.getElem?_eq_some_iff.1 h).1 (Json.height value)
  rw [← length_link] at hbound
  have hsettles : ∀ budget, ds.link.enough value ≤ budget →
      (ds.link.checkWithin lenient (ds.link.enough value) slot value).Settles
        (ds.link.checkWithin lenient budget slot value) :=
    fun budget => hw.checkWithin_settles hweight h hbound
  obtain ⟨result, hresult⟩ := (hsettles _ (Nat.le_refl _)).exists_result
  exact ⟨result, fun budget hbudget => (hsettles budget hbudget).2.trans hresult⟩

/-- The same of rebuilding. -/
theorem WellFormed.exists_rebuild (hw : ds.WellFormed) (h : ds.types[slot]? = some d)
    (lenient : Bool) (value : Json) :
    ∃ result : Except Failure Json, ∀ budget, ds.link.enough (some value) ≤ budget →
      ds.link.rebuildWithin lenient budget slot value = result.mapError .failed := by
  obtain ⟨weight, hweight⟩ := hw.exists_weight
  have hbound := hweight.bounded slot (List.getElem?_eq_some_iff.1 h).1 (Json.height (some value))
  rw [← length_link] at hbound
  have hsettles : ∀ budget, ds.link.enough (some value) ≤ budget →
      (ds.link.rebuildWithin lenient (ds.link.enough (some value)) slot value).Settles
        (ds.link.rebuildWithin lenient budget slot value) :=
    fun budget => hw.rebuildWithin_settles hweight h hbound
  obtain ⟨result, hresult⟩ := (hsettles _ (Nat.le_refl _)).exists_result
  exact ⟨result, fun budget hbudget => (hsettles budget hbudget).2.trans hresult⟩

end Definitions

/-- Checking and rebuilding end, whatever is checked: with every budget that is enough there is one
and the same result, a success or a failure. Values are checked with such a budget. -/
theorem Registry.checks_and_rebuilds_end {ds : Definitions} {r : Registry}
    (hr : Registry.compile ds = .ok r) {name : String} {b : Binding} (hb : r.get? name = some b)
    (lenient : Bool) :
    (∀ value : Option Json, ∃ result : Except Failure Unit, ∀ budget, r.enough value ≤ budget →
      r.checkWithin lenient budget b.slot value = result.mapError .failed) ∧
    (∀ value : Json, ∃ result : Except Failure Json, ∀ budget, r.enough (some value) ≤ budget →
      r.rebuildWithin lenient budget b.slot value = result.mapError .failed) ∧
    ∀ value : Json, r.enough (some value) ≤ r.budget value := by
  obtain ⟨hw, rfl⟩ := Registry.compile_eq_ok hr
  obtain ⟨slot, d, hd, -, rfl⟩ := Definitions.exists_of_get?_link hb
  refine ⟨fun value => ?_, fun value => ?_, ds.link.enough_le_budget⟩
  · exact hw.exists_check hd lenient value
  · exact hw.exists_rebuild hd lenient value

/-- Absence is checked against a shape that refers to itself after `any`, and a value is rebuilt. -/
theorem Registry.loose_ends :
    Registry.compile .forest = .ok Definitions.forest.link ∧
      Definitions.forest.link.get? "Loose" = some (Definitions.forest.binding 2 .loose) ∧
      (∃ result : Except Failure Unit, ∀ budget, Definitions.forest.link.enough none ≤ budget →
        Definitions.forest.link.checkWithin false budget 2 none = result.mapError .failed) ∧
      ∃ result : Except Failure Json, ∀ budget,
        Definitions.forest.link.enough (some (.array [.null])) ≤ budget →
          Definitions.forest.link.rebuildWithin false budget 2 (.array [.null]) =
            result.mapError .failed := by
  have hr : Registry.compile .forest = .ok Definitions.forest.link := rfl
  have hb : Definitions.forest.link.get? "Loose" = some (Definitions.forest.binding 2 .loose) := rfl
  obtain ⟨hcheck, hrebuild, -⟩ := Registry.checks_and_rebuilds_end hr hb false
  exact ⟨hr, hb, hcheck none, hrebuild (.array [.null])⟩

end JsonShape
