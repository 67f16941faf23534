import JsonShape.Proofs.Locality

/-!
# Proofs: the calls of a run

Where a shape refers to another one, its check calls on the entry of that shape, and so does its
rebuilding. A *run* is an outcome together with the calls that were made on the way to it. Checks
and rebuildings are said once more as runs; they take the same way as before.

That a run lists the right calls shows in what becomes of the check if some calls are lost, so that
they have no answer (`Run.without`). It is stuck if one of them is among the calls of the run, and
otherwise it ends as before. So the calls of the run are those that the check cannot do without, and
there are no others.
-/

namespace JsonShape

/-- A call on the shape in a slot. -/
inductive Call where
  /-- It is to check a value, or absence. -/
  | check (slot : Nat) (value : Option Json)
  /-- It is to rebuild a value. -/
  | rebuild (slot : Nat) (value : Json)

namespace Call

/-- The slot that is called on. -/
def slot : Call → Nat
  | .check slot _ => slot
  | .rebuild slot _ => slot

/-- What is given to it. -/
def value : Call → Option Json
  | .check _ value => value
  | .rebuild _ value => some value

end Call

/-- An outcome with the calls that were made for it, in their order. -/
structure Run (α : Type) where
  /-- The calls. -/
  calls : List Call
  /-- The outcome. -/
  outcome : Outcome α

namespace Run

variable {α β : Type}

/-- A run without calls. -/
def of (outcome : Outcome α) : Run α := ⟨[], outcome⟩

/-- Goes on with what has come of a run. -/
def andThen (run : Run α) (next : Outcome α → Run β) : Run β :=
  ⟨run.calls ++ (next run.outcome).calls, (next run.outcome).outcome⟩

/-- The second of two runs takes place if the first is a success. -/
instance : Monad Run where
  pure x := of (.ok x)
  bind run next := run.andThen fun
    | .ok x => next x
    | .error refusal => of (.error refusal)

instance : LawfulMonad Run := LawfulMonad.mk' Run
  (by
    intro α run
    obtain ⟨calls, outcome⟩ := run
    cases outcome <;> simp [Functor.map, andThen, of])
  (by
    intro α β x next
    simp [Bind.bind, Pure.pure, andThen, of])
  (by
    intro α β γ run next last
    obtain ⟨calls, outcome⟩ := run
    cases outcome with
    | error => simp [Bind.bind, andThen, of]
    | ok x => simp [Bind.bind, andThen])

/-- What becomes of a run if some calls are lost: it is stuck if it makes one of them, and
otherwise it ends as it did. -/
def without (lost : Call → Bool) (run : Run α) : Outcome α :=
  if run.calls.any lost then .error .stuck else run.outcome

/-- All calls of a run have a property, and an outcome is what becomes of the run if some calls are
lost. -/
def Tells (P : Call → Prop) (lost : Call → Bool) (run : Run α) (outcome : Outcome α) : Prop :=
  (∀ call ∈ run.calls, P call) ∧ outcome = run.without lost

variable {P : Call → Prop} {lost : Call → Bool}

theorem without_nothing (run : Run α) : run.without (fun _ => false) = run.outcome := by
  have hnone : ¬(run.calls.any fun _ => false) = true := by simp
  rw [without, if_neg hnone]

theorem tells_of (outcome : Outcome α) : (of outcome).Tells P lost outcome :=
  ⟨fun _ h => absurd h List.not_mem_nil, rfl⟩

/-- A run tells what comes of its parts. Being stuck must not be put right by the second. -/
theorem Tells.andThen {run : Run α} {outcome : Outcome α} (h : run.Tells P lost outcome)
    {next : Outcome α → Run β} (next' : Outcome α → Outcome β)
    (hnext : ∀ x, (next x).Tells P lost (next' x))
    (hstuck : next' (.error .stuck) = .error .stuck) :
    (run.andThen next).Tells P lost (next' outcome) := by
  obtain ⟨hfirst, rfl⟩ := h
  obtain ⟨hsecond, houtcome⟩ := hnext run.outcome
  refine ⟨List.forall_mem_append.2 ⟨hfirst, hsecond⟩, ?_⟩
  rw [without, without, Run.andThen, List.any_append]
  cases run.calls.any lost with
  | true => exact hstuck
  | false => exact houtcome

theorem Tells.bind {run : Run α} {outcome : Outcome α} {next : α → Run β}
    {next' : α → Outcome β} (h : run.Tells P lost outcome)
    (hnext : ∀ x, (next x).Tells P lost (next' x)) :
    (run >>= next).Tells P lost (outcome >>= next') := by
  refine h.andThen (· >>= next') (fun x => ?_) rfl
  cases x with
  | error refusal => exact tells_of _
  | ok x => exact hnext x

/-- A trial tells how to go on. -/
theorem tells_trial {trial : Run Unit} {outcome : Outcome Unit} {accepted : Run α}
    {accepted' : Outcome α} (haccepted : accepted.Tells P lost accepted')
    {rejected : Failure → Run α} {rejected' : Failure → Outcome α}
    (hrejected : ∀ failure, (rejected failure).Tells P lost (rejected' failure)) :
    trial.Tells P lost outcome →
      (trial.andThen fun
        | .ok () => accepted
        | .error (.failed failure) => rejected failure
        | .error .stuck => of (.error .stuck)).Tells P lost
        (match outcome with
          | .ok () => accepted'
          | .error (.failed failure) => rejected' failure
          | .error .stuck => .error .stuck) := by
  intro h
  refine h.andThen (fun
    | .ok () => accepted'
    | .error (.failed failure) => rejected' failure
    | .error .stuck => .error .stuck) (fun x => ?_) rfl
  rcases x with (failure | -) | -
  · exact hrejected failure
  · exact tells_of _
  · exact haccepted

theorem tells_forM {f : α → Run Unit} {g : α → Outcome Unit} {xs : List α}
    (h : ∀ x ∈ xs, (f x).Tells P lost (g x)) : (xs.forM f : Run Unit).Tells P lost (xs.forM g) := by
  induction xs with
  | nil => exact tells_of (.ok ())
  | cons x xs ih =>
    obtain ⟨hfirst, hrest⟩ := List.forall_mem_cons.1 h
    rw [List.forM, List.forM]
    exact hfirst.bind fun _ => ih hrest

theorem tells_mapM {f : α → Run β} {g : α → Outcome β} {xs : List α}
    (h : ∀ x ∈ xs, (f x).Tells P lost (g x)) :
    (xs.mapM f : Run (List β)).Tells P lost (xs.mapM g) := by
  induction xs with
  | nil => exact tells_of (.ok [])
  | cons x xs ih =>
    obtain ⟨hfirst, hrest⟩ := List.forall_mem_cons.1 h
    rw [List.mapM_cons, List.mapM_cons]
    refine hfirst.bind fun y => ?_
    exact (ih hrest).bind fun ys => tells_of _

end Run

/-! ## Checks and rebuildings as runs -/

namespace Validator

mutual

/-- The run of a check, where the calls on entries are runs as well. -/
def run (enter : Nat → Option Json → Run Unit) (lenient : Bool) (path : List String) :
    Validator → Option Json → Run Unit
  | .alias slot, value => enter slot value
  | .array element, value =>
    match value with
    | some (.array items) =>
      items.forM fun item => run enter lenient (path ++ [itemSegment]) element (some item)
    | _ => .of (.fail path .notArray value)
  | .object properties, value =>
    match value with
    | some (.object entries) =>
      match if lenient then none else undeclared? properties entries with
      | some key => .of (.fail path (.undeclaredKey key) value)
      | none => runProperties enter lenient path entries properties
    | _ => .of (.fail path .notObject value)
  | .union members, value => runMembers enter lenient path none members value
  | leaf, value => .of (leaf.check (fun slot x => (enter slot x).outcome) lenient path value)

/-- The run of the checks of properties. -/
def runProperties (enter : Nat → Option Json → Run Unit) (lenient : Bool) (path : List String)
    (entries : List (String × Json)) : List PropertyValidator → Run Unit
  | [] => .of (.ok ())
  | ⟨name, required, validator⟩ :: rest =>
    let child := Json.find? name entries
    if required || child.isSome then do
      run enter lenient (path ++ [name]) validator child
      runProperties enter lenient path entries rest
    else runProperties enter lenient path entries rest

/-- The run of the trials of union members. -/
def runMembers (enter : Nat → Option Json → Run Unit) (lenient : Bool) (path : List String)
    (last : Option Failure) : List Validator → Option Json → Run Unit
  | [], value =>
    match last with
    | some failure => .of (.error (.failed failure))
    | none => .of (.fail path .noMember value)
  | member :: rest, value =>
    (run enter lenient path member value).andThen fun
      | .ok () => .of (.ok ())
      | .error (.failed failure) => runMembers enter lenient path (some failure) rest value
      | .error .stuck => .of (.error .stuck)

end

end Validator

namespace Sanitizer

mutual

/-- The run of a rebuilding. -/
def run (enter : Nat → Option Json → Run Unit) (enterRebuild : Nat → Json → Run Json)
    (lenient : Bool) (path : List String) : Sanitizer → Json → Run Json
  | .alias slot, value => enterRebuild slot value
  | .keep, value => .of (.ok value)
  | .array element, value =>
    match value with
    | .array items => do
      return .array (← items.mapM fun item =>
        run enter enterRebuild lenient (path ++ [itemSegment]) element item)
    | _ => .of (.fail path .notArray (some value))
  | .object properties, value =>
    match value with
    | .object entries => do
      return .object (← runProperties enter enterRebuild lenient path entries properties)
    | _ => .of (.fail path .notObject (some value))
  | .union branches, value => runBranches enter enterRebuild lenient path none branches value

/-- The run of the rebuildings of properties. -/
def runProperties (enter : Nat → Option Json → Run Unit) (enterRebuild : Nat → Json → Run Json)
    (lenient : Bool) (path : List String) (entries : List (String × Json)) :
    List PropertySanitizer → Run (List (String × Json))
  | [] => .of (.ok [])
  | ⟨name, sanitizer⟩ :: rest =>
    match Json.find? name entries with
    | none => runProperties enter enterRebuild lenient path entries rest
    | some child => do
      let rebuilt ← run enter enterRebuild lenient (path ++ [name]) sanitizer child
      let others ← runProperties enter enterRebuild lenient path entries rest
      return Json.insert name rebuilt others

/-- The run of the trials of branches, and of the rebuilding by the first that accepts. -/
def runBranches (enter : Nat → Option Json → Run Unit) (enterRebuild : Nat → Json → Run Json)
    (lenient : Bool) (path : List String) (last : Option Failure) :
    List Branch → Json → Run Json
  | [], value =>
    match last with
    | some failure => .of (.error (.failed failure))
    | none => .of (.fail path .noMember (some value))
  | ⟨validator, sanitizer⟩ :: rest, value =>
    (validator.run enter lenient path (some value)).andThen fun
      | .ok () => run enter enterRebuild lenient path sanitizer value
      | .error (.failed failure) =>
        runBranches enter enterRebuild lenient path (some failure) rest value
      | .error .stuck => .of (.error .stuck)

end

end Sanitizer

/-! ## What a run tells of a check -/

section Telling

variable {names : List String} {lenient : Bool} {path : List String} {P : Call → Prop}
  {lost : Call → Bool} {enter : Nat → Option Json → Run Unit}
  {enter' : Nat → Option Json → Outcome Unit}

/-- The answers of runs to all that can be asked tell those of a function. -/
abbrev Told {α β : Type} (height : α → Nat) (names : List String) (P : Call → Prop)
    (lost : Call → Bool) (f : Nat → α → Run β) (g : Nat → α → Outcome β) (shape : Shape)
    (value : α) : Prop :=
  Asked height names (fun slot x => (f slot x).Tells P lost (g slot x)) shape value

namespace Validator

theorem run_array_of_ne {element : Validator} {value : Option Json}
    (h : ∀ items, value ≠ some (.array items)) :
    (Validator.array element).run enter lenient path value = .of (.fail path .notArray value) := by
  rw [run]
  exact h

theorem run_object_of_ne {properties : List PropertyValidator} {value : Option Json}
    (h : ∀ entries, value ≠ some (.object entries)) :
    (Validator.object properties).run enter lenient path value =
      .of (.fail path .notObject value) := by
  rw [run]
  exact h

/-- A property that is looked at is checked before the others. -/
theorem checkProperties_cons {name : String} {required : Bool} {entries : List (String × Json)}
    (h : (required || (Json.find? name entries).isSome) = true) {validator : Validator}
    {rest : List PropertyValidator} :
    checkProperties enter' lenient path entries (⟨name, required, validator⟩ :: rest) =
      (do
        validator.check enter' lenient (path ++ [name]) (Json.find? name entries)
        checkProperties enter' lenient path entries rest) := by
  rw [checkProperties, if_pos h]
  cases validator.check enter' lenient (path ++ [name]) (Json.find? name entries) <;> rfl

theorem runProperties_tells {properties : List Property} {entries : List (String × Json)}
    (h : ∀ p ∈ properties, ∀ path,
      ((ofShape names p.shape).run enter lenient path (Json.find? p.name entries)).Tells P lost
        ((ofShape names p.shape).check enter' lenient path (Json.find? p.name entries))) :
    (runProperties enter lenient path entries (ofProperties names properties)).Tells P lost
      (checkProperties enter' lenient path entries (ofProperties names properties)) := by
  induction properties with
  | nil => exact Run.tells_of (.ok ())
  | cons p rest ih =>
    obtain ⟨name, shape, required⟩ := p
    have hfirst := h _ List.mem_cons_self (path ++ [name])
    have hrest := ih fun p hp => h p (List.mem_cons_of_mem _ hp)
    rw [ofProperties, runProperties]
    by_cases hlook : (required || (Json.find? name entries).isSome) = true
    · rw [checkProperties_cons hlook, if_pos hlook]
      exact hfirst.bind fun _ => hrest
    · rw [checkProperties, if_neg hlook, if_neg hlook]
      exact hrest

/-- The members of a union are tried up to the first that is `any`. -/
theorem runMembers_tells {members : List Shape} {last : Option Failure} {value : Option Json}
    (hmembers : ∀ member ∈ members, Told Json.height names P lost enter enter' member value →
      ((ofShape names member).run enter lenient path value).Tells P lost
        ((ofShape names member).check enter' lenient path value))
    (h : Told Json.height names P lost enter enter' (.union members) value) :
    (runMembers enter lenient path last (ofMembers names members) value).Tells P lost
      (checkMembers enter' lenient path last (ofMembers names members) value) := by
  induction members generalizing last with
  | nil => cases last <;> exact Run.tells_of _
  | cons member rest ih =>
    by_cases hany : member = .any
    · -- nothing is called on behalf of `any`, nor of the members after it
      subst hany
      exact Run.tells_of (.ok ())
    · have hfirst := hmembers _ List.mem_cons_self (h.head hany)
      have hrest := fun last => @ih last (fun m hm => hmembers m (List.mem_cons_of_mem _ hm))
        (h.tail hany)
      simp only [ofMembers, runMembers, checkMembers]
      exact Run.tells_trial (Run.tells_of (.ok ())) (fun failure => hrest (some failure)) hfirst

/-- The run of a check tells the check. -/
theorem run_tells {shape : Shape} (hw : shape.WellFormed names) {value : Option Json}
    (h : Told Json.height names P lost enter enter' shape value) :
    ((ofShape names shape).run enter lenient path value).Tells P lost
      ((ofShape names shape).check enter' lenient path value) := by
  induction shape generalizing value path with
  | reference name =>
    rw [ofShape, run, check]
    exact h.same name List.mem_cons_self
  | array element ih =>
    cases hw with
    | array hw =>
      rw [ofShape]
      by_cases harray : ∃ items, value = some (.array items)
      · obtain ⟨items, rfl⟩ := harray
        rw [run, check]
        refine Run.tells_forM fun item hitem => ?_
        exact ih hw (h.descend hw (Json.height_item_lt hitem))
      · have hne := not_exists.1 harray
        rw [run_array_of_ne hne, check_array_of_ne hne]
        exact Run.tells_of _
  | object properties ih =>
    cases hw with
    | object hd hw =>
      rw [ofShape]
      by_cases hobject : ∃ entries, value = some (.object entries)
      · obtain ⟨entries, rfl⟩ := hobject
        rw [run, check]
        cases if lenient then none else undeclared? (ofProperties names properties) entries with
        | some key => exact Run.tells_of _
        | none =>
          refine runProperties_tells fun p hp path => ?_
          exact ih p hp (hw p hp) (h.descend (hw p hp) (Json.height_find?_lt ..))
      · have hne := not_exists.1 hobject
        rw [run_object_of_ne hne, check_object_of_ne hne]
        exact Run.tells_of _
  | union members ih =>
    cases hw with
    | union hw =>
      rw [ofShape, run, check]
      exact runMembers_tells (fun m hm hs => ih m hm (hw m hm) hs) h
  | _ => exact Run.tells_of _

end Validator

namespace Sanitizer

variable {enterRebuild : Nat → Json → Run Json} {enterRebuild' : Nat → Json → Outcome Json}

theorem run_array_of_ne {element : Sanitizer} {value : Json} (h : ∀ items, value ≠ .array items) :
    (Sanitizer.array element).run enter enterRebuild lenient path value =
      .of (.fail path .notArray (some value)) := by
  rw [run]
  exact h

theorem run_object_of_ne {properties : List PropertySanitizer} {value : Json}
    (h : ∀ entries, value ≠ .object entries) :
    (Sanitizer.object properties).run enter enterRebuild lenient path value =
      .of (.fail path .notObject (some value)) := by
  rw [run]
  exact h

theorem runProperties_tells {properties : List Property} {entries : List (String × Json)}
    (h : ∀ p ∈ properties, ∀ child, Json.find? p.name entries = some child → ∀ path,
      ((ofShape names p.shape).run enter enterRebuild lenient path child).Tells P lost
        ((ofShape names p.shape).rebuild enter' enterRebuild' lenient path child)) :
    (runProperties enter enterRebuild lenient path entries (ofProperties names properties)).Tells
      P lost (rebuildProperties enter' enterRebuild' lenient path entries
        (ofProperties names properties)) := by
  induction properties with
  | nil => exact Run.tells_of (.ok [])
  | cons p rest ih =>
    obtain ⟨name, shape, required⟩ := p
    have hrest := ih fun p hp => h p (List.mem_cons_of_mem _ hp)
    simp only [ofProperties, runProperties, rebuildProperties]
    cases hchild : Json.find? name entries with
    | none => exact hrest
    | some child =>
      refine (h _ List.mem_cons_self child hchild _).bind fun rebuilt => ?_
      exact hrest.bind fun others => Run.tells_of _

theorem runBranches_tells {members : List Shape} {last : Option Failure} {value : Json}
    (hw : ∀ member ∈ members, member.WellFormed names)
    (hmembers : ∀ member ∈ members,
      Told Json.height names P lost enter enter' member (some value) →
      Told (fun v => Json.height (some v)) names P lost enterRebuild enterRebuild' member value →
      ((ofShape names member).run enter enterRebuild lenient path value).Tells P lost
        ((ofShape names member).rebuild enter' enterRebuild' lenient path value))
    (h : Told Json.height names P lost enter enter' (.union members) (some value))
    (h' : Told (fun v => Json.height (some v)) names P lost enterRebuild enterRebuild'
      (.union members) value) :
    (runBranches enter enterRebuild lenient path last (ofMembers names members) value).Tells P lost
      (rebuildBranches enter' enterRebuild' lenient path last (ofMembers names members) value) := by
  induction members generalizing last with
  | nil => cases last <;> exact Run.tells_of _
  | cons member rest ih =>
    by_cases hany : member = .any
    · subst hany
      exact Run.tells_of (.ok value)
    · have htrial := @Validator.run_tells names lenient path P lost enter enter' member
        (hw _ List.mem_cons_self) _ (h.head hany)
      have hfirst := hmembers _ List.mem_cons_self (h.head hany) (h'.head hany)
      have hrest := fun last => @ih last (fun m hm => hw m (List.mem_cons_of_mem _ hm))
        (fun m hm => hmembers m (List.mem_cons_of_mem _ hm)) (h.tail hany) (h'.tail hany)
      simp only [ofMembers, runBranches, rebuildBranches]
      exact Run.tells_trial hfirst (fun failure => hrest (some failure)) htrial

/-- The run of a rebuilding tells the rebuilding. -/
theorem run_tells {shape : Shape} (hw : shape.WellFormed names) {value : Json}
    (h : Told Json.height names P lost enter enter' shape (some value))
    (h' : Told (fun v => Json.height (some v)) names P lost enterRebuild enterRebuild' shape
      value) :
    ((ofShape names shape).run enter enterRebuild lenient path value).Tells P lost
      ((ofShape names shape).rebuild enter' enterRebuild' lenient path value) := by
  induction shape generalizing value path with
  | reference name =>
    rw [ofShape, run, rebuild]
    exact h'.same name List.mem_cons_self
  | array element ih =>
    cases hw with
    | array hw =>
      rw [ofShape]
      by_cases harray : ∃ items, value = .array items
      · obtain ⟨items, rfl⟩ := harray
        rw [run, rebuild]
        refine (Run.tells_mapM fun item hitem => ?_).bind fun _ => Run.tells_of _
        exact ih hw (h.descend hw (Json.height_item_lt hitem))
          (h'.descend hw (Json.height_item_lt hitem))
      · have hne := not_exists.1 harray
        rw [run_array_of_ne hne, rebuild_array_of_ne hne]
        exact Run.tells_of _
  | object properties ih =>
    cases hw with
    | object hd hw =>
      rw [ofShape]
      by_cases hobject : ∃ entries, value = .object entries
      · obtain ⟨entries, rfl⟩ := hobject
        rw [run, rebuild]
        refine (runProperties_tells fun p hp child hchild path => ?_).bind
          fun _ => Run.tells_of _
        have hlt := Json.height_find?_lt p.name entries
        rw [hchild] at hlt
        exact ih p hp (hw p hp) (h.descend (hw p hp) hlt) (h'.descend (hw p hp) hlt)
      · have hne := not_exists.1 hobject
        rw [run_object_of_ne hne, rebuild_object_of_ne hne]
        exact Run.tells_of _
  | union members ih =>
    cases hw with
    | union hw =>
      rw [ofShape, run, rebuild]
      exact runBranches_tells hw (fun m hm hs hs' => ih m hm (hw m hm) hs hs') h h'
  | _ => exact Run.tells_of _

end Sanitizer

end Telling

end JsonShape
