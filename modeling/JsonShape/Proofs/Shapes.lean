import JsonShape.Shape.Basic

/-!
# Proofs: shapes

Induction over shapes, and the shapes that make sense beside given definitions: every alias names
one of them, and no object declares a property twice.
-/

namespace JsonShape

namespace Shape

/-- Induction over a shape: the element of an array, the shapes of properties and the members of a
union are taken for granted. -/
@[elab_as_elim, induction_eliminator]
theorem induction {motive : Shape → Prop}
    (reference : ∀ name, motive (.alias name)) (any : motive .any)
    (array : ∀ element, motive element → motive (.array element)) (boolean : motive .boolean)
    (literal : ∀ value, motive (.literal value)) (null : motive .null) (number : motive .number)
    (object : ∀ properties, (∀ p ∈ properties, motive p.shape) → motive (.object properties))
    (string : motive .string) (undefined : motive .undefined)
    (union : ∀ members, (∀ member ∈ members, motive member) → motive (.union members)) :
    ∀ shape, motive shape :=
  @Shape.rec motive (fun p => motive p.shape) (fun properties => ∀ p ∈ properties, motive p.shape)
    (fun members => ∀ member ∈ members, motive member)
    reference any array boolean literal null number object string undefined union
    (fun _ _ _ h => h)
    (List.forall_mem_nil _) (fun _ _ h hs => List.forall_mem_cons.2 ⟨h, hs⟩)
    (List.forall_mem_nil _) (fun _ _ h hs => List.forall_mem_cons.2 ⟨h, hs⟩)

/-- A shape that makes sense beside definitions of `names`. -/
inductive WellFormed (names : List String) : Shape → Prop where
  | reference {name : String} (h : name ∈ names) : WellFormed names (.alias name)
  | any : WellFormed names .any
  | array {element : Shape} (h : WellFormed names element) : WellFormed names (.array element)
  | boolean : WellFormed names .boolean
  | literal (value : Literal) : WellFormed names (.literal value)
  | null : WellFormed names .null
  | number : WellFormed names .number
  | object {properties : List Property} (hd : (properties.map Property.name).Nodup)
      (h : ∀ p ∈ properties, WellFormed names p.shape) : WellFormed names (.object properties)
  | string : WellFormed names .string
  | undefined : WellFormed names .undefined
  | union {members : List Shape} (h : ∀ member ∈ members, WellFormed names member) :
      WellFormed names (.union members)

theorem unguardedMembers_any (rest : List Shape) : unguardedMembers (.any :: rest) = [] := by
  rw [unguardedMembers]

theorem unguardedMembers_cons {member : Shape} (h : member ≠ .any) (rest : List Shape) :
    unguardedMembers (member :: rest) = unguarded member ++ unguardedMembers rest := by
  rw [unguardedMembers]
  exact fun hm => h hm

/-- The unguarded names of a union are unguarded in one of its members. -/
theorem exists_of_mem_unguardedMembers {name : String} {members : List Shape}
    (h : name ∈ unguardedMembers members) : ∃ member ∈ members, name ∈ unguarded member := by
  induction members with
  | nil => simp [unguardedMembers] at h
  | cons member rest ih =>
    by_cases hany : member = .any
    · subst hany
      simp [unguardedMembers_any] at h
    · rw [unguardedMembers_cons hany] at h
      rcases List.mem_append.1 h with h | h
      · exact ⟨member, List.mem_cons_self, h⟩
      · obtain ⟨other, ho, hn⟩ := ih h
        exact ⟨other, List.mem_cons_of_mem _ ho, hn⟩

/-- Unguarded names are names of definitions. -/
theorem WellFormed.unguarded_mem {names : List String} {shape : Shape}
    (hw : shape.WellFormed names) : ∀ name ∈ shape.unguarded, name ∈ names := by
  intro name hn
  induction shape with
  | reference target =>
    rw [unguarded, List.mem_singleton] at hn
    cases hw with
    | reference h => exact hn ▸ h
  | union members ih =>
    rw [unguarded] at hn
    cases hw with
    | union h =>
      obtain ⟨member, hm, hn⟩ := exists_of_mem_unguardedMembers hn
      exact ih member hm (h member hm) hn
  | _ => simp [unguarded] at hn

end Shape

end JsonShape
