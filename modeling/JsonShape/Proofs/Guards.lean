import JsonShape.Proofs.Circuits
import JsonShape.Proofs.Calls
import JsonShape.Proofs.Termination

/-!
# Proofs: calls that consume nothing

While an entry is checked or rebuilt, other entries are called on. Such a call is given the very
thing that the entry itself was given, or something below it, and below a value everything is lower
than the value. The calls of the first kind consume nothing. They all go to names that the shape of
the entry refers to without a guard, although the unguarded names leave out whatever stands after
`any` in a union: no member after it is tried, neither by a check nor when a union is told apart
again to rebuild a value.

Circles of unguarded references are refused when definitions are compiled. So calls that consume
nothing never lead back to the entry where they began.
-/

namespace JsonShape

open Relation

namespace Registry

/-! ## The run of an entry -/

/-- A call for a check, with the answer that the registry gives. -/
def checkCall (r : Registry) (lenient : Bool) (budget : Nat) (slot : Nat) (value : Option Json) :
    Run Unit := ⟨[.check slot value], r.checkWithin lenient budget slot value⟩

/-- A call for a rebuilding, with the answer that the registry gives. -/
def rebuildCall (r : Registry) (lenient : Bool) (budget : Nat) (slot : Nat) (value : Json) :
    Run Json := ⟨[.rebuild slot value], r.rebuildWithin lenient budget slot value⟩

/-- The run of the check of an entry. It lists the calls that are made for this entry; those that
other entries make to give their answers are calls of their own runs. -/
def checkRun (r : Registry) (lenient : Bool) (budget : Nat) (entry : Entry)
    (value : Option Json) : Run Unit :=
  entry.validator.run (r.checkCall lenient budget) lenient [entry.name] value

/-- The run of the rebuilding of a value by an entry. -/
def rebuildRun (r : Registry) (lenient : Bool) (budget : Nat) (entry : Entry) (value : Json) :
    Run Json :=
  entry.sanitizer.run (r.checkCall lenient budget) (r.rebuildCall lenient budget) lenient
    [entry.name] value

/-- The answer of the registry to a call for a check, unless the call is lost. -/
def answerCheck (r : Registry) (lenient : Bool) (budget : Nat) (lost : Call → Bool) (slot : Nat)
    (value : Option Json) : Outcome Unit := (r.checkCall lenient budget slot value).without lost

/-- The answer of the registry to a call for a rebuilding, unless the call is lost. -/
def answerRebuild (r : Registry) (lenient : Bool) (budget : Nat) (lost : Call → Bool) (slot : Nat)
    (value : Json) : Outcome Json := (r.rebuildCall lenient budget slot value).without lost

/-- A call that is made for an entry when it is given something goes to an entry of the registry.
If this is given the same, then its name is one of the unguarded names of the shape; and if not,
then it is given something lower. -/
def Covers (r : Registry) (entry : Entry) (value : Option Json) (call : Call) : Prop :=
  ∃ callee, r.entries[call.slot]? = some callee ∧
    (call.value = value → callee.name ∈ entry.shape.unguarded) ∧
    (call.value ≠ value → Json.height call.value < Json.height value)

/-- If nothing is lost, then the answers are those of the registry. -/
theorem answerCheck_nothing (r : Registry) (lenient : Bool) (budget : Nat) :
    r.answerCheck lenient budget (fun _ => false) = r.checkWithin lenient budget := by
  funext slot value
  exact Run.without_nothing (r.checkCall lenient budget slot value)

theorem answerRebuild_nothing (r : Registry) (lenient : Bool) (budget : Nat) :
    r.answerRebuild lenient budget (fun _ => false) = r.rebuildWithin lenient budget := by
  funext slot value
  exact Run.without_nothing (r.rebuildCall lenient budget slot value)

end Registry

/-! ## Compiled definitions -/

namespace Definitions

variable {ds : Definitions} {d : Definition} {lenient : Bool} {budget : Nat}

/-- A call on an unguarded name with the same is covered. -/
theorem WellFormed.covers_same (hw : ds.WellFormed) (hd : d ∈ ds.types) {name : String}
    (hname : name ∈ d.shape.unguarded) {call : Call} (hslot : call.slot = ds.names.idxOf name)
    {value : Option Json} (hvalue : call.value = value) :
    ds.link.Covers (.ofDefinition ds.names d) value call := by
  have hmem : name ∈ ds.names := (hw.shapes d hd).unguarded_mem name hname
  obtain ⟨shape, hshape⟩ := exists_of_mem_names hw.distinct hmem
  refine ⟨.ofDefinition ds.names ⟨name, shape⟩, ?_, fun _ => hname, fun hne => absurd hvalue hne⟩
  rw [entries_link, hslot, hshape]
  rfl

/-- A call on any name with something lower is covered. -/
theorem WellFormed.covers_below (hw : ds.WellFormed) {name : String} (hname : name ∈ ds.names)
    {call : Call} (hslot : call.slot = ds.names.idxOf name) {value : Option Json}
    (hlower : Json.height call.value < Json.height value) :
    ds.link.Covers (.ofDefinition ds.names d) value call := by
  obtain ⟨shape, hshape⟩ := exists_of_mem_names hw.distinct hname
  refine ⟨.ofDefinition ds.names ⟨name, shape⟩, ?_, fun heq => ?_, fun _ => hlower⟩
  · rw [entries_link, hslot, hshape]
    rfl
  · rw [heq] at hlower
    exact absurd hlower (Nat.lt_irrefl _)

/-- The answers to all that can be asked on behalf of an entry tell calls that are covered. This is
said of calls of either kind, by what is `given` to the entry that is called on. -/
theorem WellFormed.told (hw : ds.WellFormed) (hd : d ∈ ds.types) {β γ : Type}
    (given : β → Option Json) (call : Nat → β → Call) (hslot : ∀ slot x, (call slot x).slot = slot)
    (hvalue : ∀ slot x, (call slot x).value = given x) {enter : Nat → β → Run γ}
    (hcalls : ∀ slot x, (enter slot x).calls = [call slot x]) (lost : Call → Bool) (value : β) :
    Told (fun x => Json.height (given x)) ds.names
      (ds.link.Covers (.ofDefinition ds.names d) (given value)) lost enter
      (fun slot x => (enter slot x).without lost) d.shape value := by
  constructor
  · intro name hname
    refine ⟨?_, rfl⟩
    rw [hcalls, List.forall_mem_singleton]
    exact hw.covers_same hd hname (hslot _ _) (hvalue _ _)
  · intro name hname lower hlower
    refine ⟨?_, rfl⟩
    rw [hcalls, List.forall_mem_singleton]
    exact hw.covers_below hname (hslot _ _) (by rwa [hvalue])

/-- The run of a check of an entry tells it. -/
theorem WellFormed.checkRun_tells (hw : ds.WellFormed) (hd : d ∈ ds.types) (lenient : Bool)
    (budget : Nat) (lost : Call → Bool) (value : Option Json) :
    (ds.link.checkRun lenient budget (.ofDefinition ds.names d) value).Tells
      (ds.link.Covers (.ofDefinition ds.names d) value) lost
      ((Validator.ofShape ds.names d.shape).check (ds.link.answerCheck lenient budget lost)
        lenient [d.name] value) := by
  refine Validator.run_tells (hw.shapes d hd) ?_
  exact hw.told hd id .check (fun _ _ => rfl) (fun _ _ => rfl) (fun _ _ => rfl) lost value

/-- The run of a rebuilding by an entry tells it. -/
theorem WellFormed.rebuildRun_tells (hw : ds.WellFormed) (hd : d ∈ ds.types) (lenient : Bool)
    (budget : Nat) (lost : Call → Bool) (value : Json) :
    (ds.link.rebuildRun lenient budget (.ofDefinition ds.names d) value).Tells
      (ds.link.Covers (.ofDefinition ds.names d) (some value)) lost
      ((Sanitizer.ofShape ds.names d.shape).rebuild (ds.link.answerCheck lenient budget lost)
        (ds.link.answerRebuild lenient budget lost) lenient [d.name] value) := by
  refine Sanitizer.run_tells (hw.shapes d hd) ?_ ?_
  · exact hw.told hd id .check (fun _ _ => rfl) (fun _ _ => rfl) (fun _ _ => rfl) lost (some value)
  · exact hw.told hd some .rebuild (fun _ _ => rfl) (fun _ _ => rfl) (fun _ _ => rfl) lost value

theorem WellFormed.outcome_checkRun (hw : ds.WellFormed) {slot : Nat}
    (hd : ds.types[slot]? = some d) (value : Option Json) :
    (ds.link.checkRun lenient budget (.ofDefinition ds.names d) value).outcome =
      ds.link.checkWithin lenient (budget + 1) slot value := by
  have hmem : d ∈ ds.types := List.mem_of_getElem? hd
  obtain ⟨-, houtcome⟩ := hw.checkRun_tells hmem lenient budget (fun _ => false) value
  rw [Run.without_nothing, Registry.answerCheck_nothing] at houtcome
  rw [checkWithin_succ hd, houtcome]

theorem WellFormed.outcome_rebuildRun (hw : ds.WellFormed) {slot : Nat}
    (hd : ds.types[slot]? = some d) (value : Json) :
    (ds.link.rebuildRun lenient budget (.ofDefinition ds.names d) value).outcome =
      ds.link.rebuildWithin lenient (budget + 1) slot value := by
  have hmem : d ∈ ds.types := List.mem_of_getElem? hd
  obtain ⟨-, houtcome⟩ := hw.rebuildRun_tells hmem lenient budget (fun _ => false) value
  rw [Run.without_nothing, Registry.answerCheck_nothing, Registry.answerRebuild_nothing]
    at houtcome
  rw [rebuildWithin_succ hd, houtcome]

/-- A call that consumes nothing follows an edge of the graph that was searched for cycles. -/
theorem WellFormed.edge_of_covers (hw : ds.WellFormed) {slot : Nat} (hd : ds.types[slot]? = some d)
    {value : Option Json} {call : Call}
    (h : ds.link.Covers (.ofDefinition ds.names d) value call) (hvalue : call.value = value) :
    Cycle.Edge ds.link.unguardedTargets slot call.slot := by
  obtain ⟨callee, hcallee, hname, -⟩ := h
  rw [entries_link] at hcallee
  obtain ⟨target, htarget, rfl⟩ := Option.map_eq_some_iff.1 hcallee
  exact (mem_unguardedTargets hd).2
    ⟨target.name, hname hvalue, find?_slots_link hw.distinct htarget⟩

end Definitions

/-- While an entry is checked or rebuilt with something, the entry in another slot is called on with
the same. -/
def Registry.PassesOn (r : Registry) (lenient : Bool) (value : Option Json) (slot target : Nat) :
    Prop :=
  ∃ entry budget call, r.entries[slot]? = some entry ∧ call.slot = target ∧ call.value = value ∧
    (call ∈ (r.checkRun lenient budget entry value).calls ∨
      ∃ v, value = some v ∧ call ∈ (r.rebuildRun lenient budget entry v).calls)

theorem Definitions.WellFormed.edge_of_passesOn {ds : Definitions} (hw : ds.WellFormed)
    {lenient : Bool} {value : Option Json} {slot target : Nat}
    (h : ds.link.PassesOn lenient value slot target) :
    Cycle.Edge ds.link.unguardedTargets slot target := by
  obtain ⟨entry, budget, call, he, rfl, hvalue, hcall⟩ := h
  rw [entries_link] at he
  obtain ⟨d, hd, rfl⟩ := Option.map_eq_some_iff.1 he
  have hmem : d ∈ ds.types := List.mem_of_getElem? hd
  have hcovers : ds.link.Covers (.ofDefinition ds.names d) value call := by
    rcases hcall with hcall | ⟨v, rfl, hcall⟩
    · exact (hw.checkRun_tells hmem lenient budget (fun _ => false) value).1 call hcall
    · exact (hw.rebuildRun_tells hmem lenient budget (fun _ => false) v).1 call hcall
  exact hw.edge_of_covers hd hcovers hvalue

/-- Calls with one and the same thing, each made for the entry that the one before it went to, never
come back to an entry. -/
theorem Registry.not_passesOn_back {ds : Definitions} {r : Registry}
    (hr : Registry.compile ds = .ok r) (lenient : Bool) (value : Option Json) (slot : Nat) :
    ¬TransGen (r.PassesOn lenient value) slot slot := by
  obtain ⟨hw, rfl⟩ := Registry.compile_eq_ok hr
  have hfind := Option.map_eq_none_iff.1 hw.acyclic
  rw [Definitions.length_link] at hfind
  have hacyclic : ∀ vertex, ¬TransGen (Cycle.Edge ds.link.unguardedTargets) vertex vertex :=
    (Cycle.find?_eq_none_iff fun _ _ ht => Definitions.unguardedTargets_lt ht).1 hfind
  intro hback
  exact hacyclic slot (hback.lift id fun _ _ => hw.edge_of_passesOn)

/-- Every call that consumes nothing goes to an unguarded name. While an entry is checked or a value
is rebuilt by it, the calls that are made for it go to entries of the registry; a call with the very
thing that the entry was given goes to one of the unguarded names of its shape, and any other call
is about something lower. The runs that list the calls end as the check and the rebuilding do, and
they list what these cannot do without: if calls are lost, then a check or a rebuilding is stuck if
one of them is in its run, and otherwise nothing changes. -/
theorem Registry.calls_guarded {ds : Definitions} {r : Registry} (hr : Registry.compile ds = .ok r)
    {slot : Nat} {entry : Entry} (he : r.entries[slot]? = some entry) (lenient : Bool)
    (budget : Nat) :
    (∀ value : Option Json,
      (r.checkRun lenient budget entry value).outcome =
          r.checkWithin lenient (budget + 1) slot value ∧
        (∀ lost, entry.validator.check (r.answerCheck lenient budget lost) lenient [entry.name]
          value = (r.checkRun lenient budget entry value).without lost) ∧
        ∀ call ∈ (r.checkRun lenient budget entry value).calls, r.Covers entry value call) ∧
    ∀ value : Json,
      (r.rebuildRun lenient budget entry value).outcome =
          r.rebuildWithin lenient (budget + 1) slot value ∧
        (∀ lost, entry.sanitizer.rebuild (r.answerCheck lenient budget lost)
          (r.answerRebuild lenient budget lost) lenient [entry.name] value =
            (r.rebuildRun lenient budget entry value).without lost) ∧
        ∀ call ∈ (r.rebuildRun lenient budget entry value).calls,
          r.Covers entry (some value) call := by
  obtain ⟨hw, rfl⟩ := Registry.compile_eq_ok hr
  rw [Definitions.entries_link] at he
  obtain ⟨d, hd, rfl⟩ := Option.map_eq_some_iff.1 he
  have hmem : d ∈ ds.types := List.mem_of_getElem? hd
  constructor
  · intro value
    have htells := fun lost => hw.checkRun_tells hmem lenient budget lost value
    refine ⟨hw.outcome_checkRun hd value, fun lost => (htells lost).2, ?_⟩
    exact (htells fun _ => false).1
  · intro value
    have htells := fun lost => hw.rebuildRun_tells hmem lenient budget lost value
    refine ⟨hw.outcome_rebuildRun hd value, fun lost => (htells lost).2, ?_⟩
    exact (htells fun _ => false).1

/-- Texts. -/
def Definition.word : Definition := ⟨"Word", .string⟩

/-- Anything at all, though texts and lists are tried first. The reference to itself at the end is
never followed, the one in lists is. -/
def Definition.remark : Definition :=
  ⟨"Remark", .union [.union [.null, .alias "Word"], .array (.alias "Remark"), .any,
    .alias "Remark"]⟩

/-- Texts and remarks. -/
def Definitions.remarks : Definitions := ⟨none, [.word, .remark]⟩

/-- To check that nothing is a remark, texts are tried. To rebuild a list of one text, texts are
tried with the list, and remarks with the text; then the text is rebuilt as a remark. -/
theorem Registry.remark_guarded :
    Registry.compile .remarks = .ok Definitions.remarks.link ∧
      Definitions.remarks.link.entries[1]? =
        some (.ofDefinition Definitions.remarks.names .remark) ∧
      Definition.remark.shape.unguarded = ["Word"] ∧
      (∀ call ∈ [Call.check 0 none],
        Definitions.remarks.link.Covers (.ofDefinition Definitions.remarks.names .remark) none
          call) ∧
      ∀ call ∈ [Call.check 0 (some (.array [.string "a"])), .check 1 (some (.string "a")),
          .rebuild 1 (.string "a")],
        Definitions.remarks.link.Covers (.ofDefinition Definitions.remarks.names .remark)
          (some (.array [.string "a"])) call := by
  have hr : Registry.compile .remarks = .ok Definitions.remarks.link := rfl
  have he : Definitions.remarks.link.entries[1]? =
      some (.ofDefinition Definitions.remarks.names .remark) := rfl
  obtain ⟨hcheck, hrebuild⟩ := Registry.calls_guarded hr he true 2
  have hnothing : (Definitions.remarks.link.checkRun true 2
      (.ofDefinition Definitions.remarks.names .remark) none).calls = [.check 0 none] := rfl
  have hlist : (Definitions.remarks.link.rebuildRun true 2
      (.ofDefinition Definitions.remarks.names .remark) (.array [.string "a"])).calls =
        [.check 0 (some (.array [.string "a"])), .check 1 (some (.string "a")),
          .rebuild 1 (.string "a")] := rfl
  refine ⟨hr, he, rfl, ?_, ?_⟩
  · rw [← hnothing]
    exact (hcheck none).2.2
  · rw [← hlist]
    exact (hrebuild _).2.2

end JsonShape
