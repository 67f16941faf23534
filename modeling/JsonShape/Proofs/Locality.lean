import JsonShape.Proofs.Compilation
import JsonShape.Proofs.Values

/-!
# Proofs: what a check can ask

A check is written against a function that checks a value against the shape in a slot. `Asked` says
of a property that it holds of all that a check can ask this function when it looks at a value: the
unguarded names with the value itself, and any name with something that lies below the value. If the
answers of one function settle those of another there, then so do the checks. The same holds of
rebuilding.

A union is never tried beyond a member that is `any`, which is why the members after it may refer to
anything.
-/

namespace JsonShape

/-- A property holds of all slots and values that can be asked about to check a value against a
shape. -/
structure Asked {α : Type} (height : α → Nat) (names : List String) (P : Nat → α → Prop)
    (shape : Shape) (value : α) : Prop where
  /-- It holds of the value itself at the unguarded names. -/
  same : ∀ name ∈ shape.unguarded, P (names.idxOf name) value
  /-- It holds of everything lower at all names. -/
  below : ∀ name ∈ names, ∀ lower, height lower < height value → P (names.idxOf name) lower

namespace Asked

variable {α : Type} {height : α → Nat} {names : List String} {P : Nat → α → Prop}
  {shape member : Shape} {rest : List Shape} {value : α}

/-- Below a value no guard is needed. -/
theorem descend (h : Asked height names P shape value) (hw : member.WellFormed names) {lower : α}
    (hlt : height lower < height value) : Asked height names P member lower := by
  refine ⟨fun name hn => h.below name (hw.unguarded_mem name hn) lower hlt, ?_⟩
  intro name hn other ho
  exact h.below name hn other (Nat.lt_trans ho hlt)

theorem head (h : Asked height names P (.union (member :: rest)) value) (hany : member ≠ .any) :
    Asked height names P member value := by
  refine ⟨fun name hn => h.same name ?_, h.below⟩
  rw [Shape.unguarded, Shape.unguardedMembers_cons hany]
  exact List.mem_append_left _ hn

theorem tail (h : Asked height names P (.union (member :: rest)) value) (hany : member ≠ .any) :
    Asked height names P (.union rest) value := by
  refine ⟨fun name hn => h.same name ?_, h.below⟩
  rw [Shape.unguarded, Shape.unguardedMembers_cons hany]
  exact List.mem_append_right _ hn

end Asked

/-- The answers of a function settle those of another on all that can be asked. -/
abbrev Settled {α β : Type} (height : α → Nat) (names : List String) (f g : Nat → α → Outcome β)
    (shape : Shape) (value : α) : Prop :=
  Asked height names (fun slot x => (f slot x).Settles (g slot x)) shape value

variable {names : List String} {lenient : Bool} {path : List String}
  {enter enter' : Nat → Option Json → Outcome Unit}

/-! ## Checks -/

namespace Validator

theorem check_array_of_ne {element : Validator} {value : Option Json}
    (h : ∀ items, value ≠ some (.array items)) :
    (Validator.array element).check enter lenient path value = .fail path .notArray value := by
  rw [check]
  exact h

theorem check_object_of_ne {properties : List PropertyValidator} {value : Option Json}
    (h : ∀ entries, value ≠ some (.object entries)) :
    (Validator.object properties).check enter lenient path value = .fail path .notObject value := by
  rw [check]
  exact h

theorem checkProperties_settles {properties : List Property} {entries : List (String × Json)}
    (h : ∀ p ∈ properties, ∀ path,
      ((ofShape names p.shape).check enter lenient path (Json.find? p.name entries)).Settles
        ((ofShape names p.shape).check enter' lenient path (Json.find? p.name entries))) :
    (checkProperties enter lenient path entries (ofProperties names properties)).Settles
      (checkProperties enter' lenient path entries (ofProperties names properties)) := by
  induction properties with
  | nil => exact Outcome.settles_ok ()
  | cons p rest ih =>
    obtain ⟨name, shape, required⟩ := p
    obtain ⟨hne, heq⟩ := h _ List.mem_cons_self (path ++ [name])
    have hrest := ih fun p hp => h p (List.mem_cons_of_mem _ hp)
    dsimp only at hne heq
    simp only [ofProperties, checkProperties]
    rw [heq]
    split
    · split
      · exact hrest
      · next refusal hcheck =>
        cases refusal with
        | failed failure => exact Outcome.settles_failed failure
        | stuck => exact absurd hcheck hne
    · exact hrest

/-- The members of a union are tried up to the first that is `any`. -/
theorem checkMembers_settles {members : List Shape} {last : Option Failure} {value : Option Json}
    (hmembers : ∀ member ∈ members, Settled Json.height names enter enter' member value →
      ((ofShape names member).check enter lenient path value).Settles
        ((ofShape names member).check enter' lenient path value))
    (h : Settled Json.height names enter enter' (.union members) value) :
    (checkMembers enter lenient path last (ofMembers names members) value).Settles
      (checkMembers enter' lenient path last (ofMembers names members) value) := by
  induction members generalizing last with
  | nil => cases last <;> exact Outcome.settles_failed _
  | cons member rest ih =>
    by_cases hany : member = .any
    · -- the members after `any` are not tried, so nothing need be known of them
      subst hany
      exact Outcome.settles_ok ()
    · obtain ⟨hne, heq⟩ := hmembers _ List.mem_cons_self (h.head hany)
      have hrest := fun last => @ih last (fun m hm => hmembers m (List.mem_cons_of_mem _ hm))
        (h.tail hany)
      simp only [ofMembers, checkMembers]
      rw [heq]
      split
      · exact Outcome.settles_ok ()
      · exact hrest _
      · next hcheck => exact absurd hcheck hne

/-- A check settles what the other function makes of it. -/
theorem check_settles {shape : Shape} (hw : shape.WellFormed names) {value : Option Json}
    (h : Settled Json.height names enter enter' shape value) :
    ((ofShape names shape).check enter lenient path value).Settles
      ((ofShape names shape).check enter' lenient path value) := by
  induction shape generalizing value path with
  | reference name =>
    rw [ofShape, check, check]
    exact h.same name List.mem_cons_self
  | any => exact Outcome.settles_ok ()
  | array element ih =>
    cases hw with
    | array hw =>
      rw [ofShape]
      by_cases harray : ∃ items, value = some (.array items)
      · obtain ⟨items, rfl⟩ := harray
        rw [check, check]
        refine Outcome.settles_forM fun item hitem => ?_
        exact ih hw (h.descend hw (Json.height_item_lt hitem))
      · have hne := not_exists.1 harray
        rw [check_array_of_ne hne, check_array_of_ne hne]
        exact Outcome.settles_failed _
  | object properties ih =>
    cases hw with
    | object hd hw =>
      rw [ofShape]
      by_cases hobject : ∃ entries, value = some (.object entries)
      · obtain ⟨entries, rfl⟩ := hobject
        rw [check, check]
        split
        · exact Outcome.settles_failed _
        · refine checkProperties_settles fun p hp path => ?_
          exact ih p hp (hw p hp) (h.descend (hw p hp) (Json.height_find?_lt ..))
      · have hne := not_exists.1 hobject
        rw [check_object_of_ne hne, check_object_of_ne hne]
        exact Outcome.settles_failed _
  | union members ih =>
    cases hw with
    | union hw =>
      rw [ofShape, check, check]
      exact checkMembers_settles (fun m hm hs => ih m hm (hw m hm) hs) h
  | _ => exact Outcome.settles_require

end Validator

/-! ## Rebuilding -/

namespace Sanitizer

variable {enterRebuild enterRebuild' : Nat → Json → Outcome Json}

theorem rebuild_array_of_ne {element : Sanitizer} {value : Json}
    (h : ∀ items, value ≠ .array items) :
    (Sanitizer.array element).rebuild enter enterRebuild lenient path value =
      .fail path .notArray (some value) := by
  rw [rebuild]
  exact h

theorem rebuild_object_of_ne {properties : List PropertySanitizer} {value : Json}
    (h : ∀ entries, value ≠ .object entries) :
    (Sanitizer.object properties).rebuild enter enterRebuild lenient path value =
      .fail path .notObject (some value) := by
  rw [rebuild]
  exact h

theorem rebuildProperties_settles {properties : List Property} {entries : List (String × Json)}
    (h : ∀ p ∈ properties, ∀ child, Json.find? p.name entries = some child → ∀ path,
      ((ofShape names p.shape).rebuild enter enterRebuild lenient path child).Settles
        ((ofShape names p.shape).rebuild enter' enterRebuild' lenient path child)) :
    (rebuildProperties enter enterRebuild lenient path entries
      (ofProperties names properties)).Settles
      (rebuildProperties enter' enterRebuild' lenient path entries
        (ofProperties names properties)) := by
  induction properties with
  | nil => exact Outcome.settles_ok []
  | cons p rest ih =>
    obtain ⟨name, shape, required⟩ := p
    have hrest := ih fun p hp => h p (List.mem_cons_of_mem _ hp)
    simp only [ofProperties, rebuildProperties]
    split
    · exact hrest
    · next child hchild =>
      refine (h _ List.mem_cons_self child hchild _).bind fun rebuilt => ?_
      exact hrest.bind fun others => Outcome.settles_ok _

theorem rebuildBranches_settles {members : List Shape} {last : Option Failure} {value : Json}
    (hw : ∀ member ∈ members, member.WellFormed names)
    (hmembers : ∀ member ∈ members, Settled Json.height names enter enter' member (some value) →
      Settled (fun v => Json.height (some v)) names enterRebuild enterRebuild' member value →
      ((ofShape names member).rebuild enter enterRebuild lenient path value).Settles
        ((ofShape names member).rebuild enter' enterRebuild' lenient path value))
    (h : Settled Json.height names enter enter' (.union members) (some value))
    (h' : Settled (fun v => Json.height (some v)) names enterRebuild enterRebuild'
      (.union members) value) :
    (rebuildBranches enter enterRebuild lenient path last (ofMembers names members) value).Settles
      (rebuildBranches enter' enterRebuild' lenient path last
        (ofMembers names members) value) := by
  induction members generalizing last with
  | nil => cases last <;> exact Outcome.settles_failed _
  | cons member rest ih =>
    by_cases hany : member = .any
    · subst hany
      exact Outcome.settles_ok value
    · obtain ⟨hne, heq⟩ := @Validator.check_settles names lenient path enter enter' member
        (hw _ List.mem_cons_self) _ (h.head hany)
      have hfirst := hmembers _ List.mem_cons_self (h.head hany) (h'.head hany)
      have hrest := fun last => @ih last (fun m hm => hw m (List.mem_cons_of_mem _ hm))
        (fun m hm => hmembers m (List.mem_cons_of_mem _ hm)) (h.tail hany) (h'.tail hany)
      simp only [ofMembers, rebuildBranches]
      rw [heq]
      split
      · exact hfirst
      · exact hrest _
      · next hcheck => exact absurd hcheck hne

/-- Rebuilding settles what the other functions make of it. -/
theorem rebuild_settles {shape : Shape} (hw : shape.WellFormed names) {value : Json}
    (h : Settled Json.height names enter enter' shape (some value))
    (h' : Settled (fun v => Json.height (some v)) names enterRebuild enterRebuild' shape value) :
    ((ofShape names shape).rebuild enter enterRebuild lenient path value).Settles
      ((ofShape names shape).rebuild enter' enterRebuild' lenient path value) := by
  induction shape generalizing value path with
  | reference name =>
    rw [ofShape, rebuild, rebuild]
    exact h'.same name List.mem_cons_self
  | array element ih =>
    cases hw with
    | array hw =>
      rw [ofShape]
      by_cases harray : ∃ items, value = .array items
      · obtain ⟨items, rfl⟩ := harray
        rw [rebuild, rebuild]
        refine (Outcome.settles_mapM fun item hitem => ?_).bind fun _ => Outcome.settles_ok _
        exact ih hw (h.descend hw (Json.height_item_lt hitem))
          (h'.descend hw (Json.height_item_lt hitem))
      · have hne := not_exists.1 harray
        rw [rebuild_array_of_ne hne, rebuild_array_of_ne hne]
        exact Outcome.settles_failed _
  | object properties ih =>
    cases hw with
    | object hd hw =>
      rw [ofShape]
      by_cases hobject : ∃ entries, value = .object entries
      · obtain ⟨entries, rfl⟩ := hobject
        rw [rebuild, rebuild]
        refine (rebuildProperties_settles fun p hp child hchild path => ?_).bind
          fun _ => Outcome.settles_ok _
        have hlt := Json.height_find?_lt p.name entries
        rw [hchild] at hlt
        exact ih p hp (hw p hp) (h.descend (hw p hp) hlt) (h'.descend (hw p hp) hlt)
      · have hne := not_exists.1 hobject
        rw [rebuild_object_of_ne hne, rebuild_object_of_ne hne]
        exact Outcome.settles_failed _
  | union members ih =>
    cases hw with
    | union hw =>
      rw [ofShape, rebuild, rebuild]
      exact rebuildBranches_settles hw (fun m hm hs hs' => ih m hm (hw m hm) hs hs') h h'
  | _ => exact Outcome.settles_ok value

end Sanitizer

end JsonShape
