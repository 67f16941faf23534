import JsonShape.Definitions.Basic
import JsonShape.Proofs.Shapes

/-!
# Proofs: what occurs in a shape

Three ways in which a shape can occur in another one. A *part* occurs anywhere, at any depth; shapes
are well formed if their parts are. An *exposed* name occurs where it is looked up with the very
value that the whole shape is given; these are the unguarded names. And a shape *reaches* the parts
of the shapes that it refers to, directly or over other references.

All three are said by rules that follow the way from the whole shape to the place, without the
functions that collect names.
-/

namespace JsonShape

namespace Shape

/-! ## Parts -/

/-- A shape is part of another one. Members after `any` are parts like all others. -/
inductive Part : Shape → Shape → Prop where
  | whole (shape : Shape) : Part shape shape
  | element {element shape : Shape} (h : Part (.array element) shape) : Part element shape
  | property {properties : List Property} {p : Property} {shape : Shape}
      (h : Part (.object properties) shape) (hp : p ∈ properties) : Part p.shape shape
  | member {members : List Shape} {member shape : Shape} (h : Part (.union members) shape)
      (hm : member ∈ members) : Part member shape

variable {names : List String} {shape piece : Shape}

theorem Part.trans {middle : Shape} (h : piece.Part middle) (h' : middle.Part shape) :
    piece.Part shape := by
  induction h with
  | whole => exact h'
  | element _ ih => exact (ih h').element
  | property _ hp ih => exact (ih h').property hp
  | member _ hm ih => exact (ih h').member hm

theorem WellFormed.part (hw : shape.WellFormed names) (h : piece.Part shape) :
    piece.WellFormed names := by
  induction h with
  | whole => exact hw
  | element _ ih =>
    cases ih hw with
    | array helement => exact helement
  | property _ hp ih =>
    cases ih hw with
    | object _ hproperties => exact hproperties _ hp
  | member _ hm ih =>
    cases ih hw with
    | union hmembers => exact hmembers _ hm

/-- A part is well formed if all aliases in the whole have targets and no object in it repeats a
property. -/
theorem wellFormed_of_part (hnames : ∀ name, Part (.alias name) shape → name ∈ names)
    (hdistinct : ∀ properties, Part (.object properties) shape →
      (properties.map Property.name).Nodup)
    (h : piece.Part shape) : piece.WellFormed names := by
  -- on the piece: what it is made of is part of the whole as well
  induction piece with
  | reference name => exact .reference (hnames name h)
  | array element ih => exact .array (ih h.element)
  | object properties ih =>
    have hproperties : ∀ p ∈ properties, p.shape.WellFormed names := by
      intro p hp
      exact ih p hp (h.property hp)
    exact .object (hdistinct properties h) hproperties
  | union members ih =>
    have hmembers : ∀ member ∈ members, member.WellFormed names := by
      intro member hm
      exact ih member hm (h.member hm)
    exact .union hmembers
  | _ => constructor

theorem wellFormed_iff :
    shape.WellFormed names ↔ (∀ name, Part (.alias name) shape → name ∈ names) ∧
      ∀ properties, Part (.object properties) shape → (properties.map Property.name).Nodup := by
  constructor
  · intro hw
    constructor
    · intro name h
      cases hw.part h with
      | reference hm => exact hm
    · intro properties h
      cases hw.part h with
      | object hd _ => exact hd
  · rintro ⟨hnames, hdistinct⟩
    exact wellFormed_of_part hnames hdistinct (.whole shape)

/-! ## Exposed names -/

/-- A name is reached through union members only, and no member on the way stands after one that is
`any`. -/
inductive Exposed (name : String) : Shape → Prop where
  | reference : Exposed name (.alias name)
  | union {before after : List Shape} {member : Shape} (hany : .any ∉ before)
      (h : Exposed name member) : Exposed name (.union (before ++ member :: after))

/-- The unguarded names of a union are those of the members up to the first that is `any`. -/
theorem mem_unguardedMembers_iff {name : String} {members : List Shape} :
    name ∈ unguardedMembers members ↔ ∃ before member after,
      members = before ++ member :: after ∧ .any ∉ before ∧ name ∈ unguarded member := by
  induction members with
  | nil => simp [unguardedMembers]
  | cons first rest ih =>
    by_cases hany : first = .any
    · subst hany
      rw [unguardedMembers_any]
      constructor
      · intro h
        exact absurd h List.not_mem_nil
      · rintro ⟨before, member, after, hsplit, hnone, hn⟩
        -- the member itself is `any`, since nothing can stand before it
        cases before with
        | nil =>
          cases hsplit
          exact hn
        | cons other before =>
          cases hsplit
          exact absurd List.mem_cons_self hnone
    · rw [unguardedMembers_cons hany, List.mem_append, ih]
      constructor
      · rintro (hn | ⟨before, member, after, rfl, hnone, hn⟩)
        · exact ⟨[], first, rest, rfl, List.not_mem_nil, hn⟩
        · refine ⟨first :: before, member, after, rfl, ?_, hn⟩
          rw [List.mem_cons, not_or]
          exact ⟨Ne.symm hany, hnone⟩
      · rintro ⟨before, member, after, hsplit, hnone, hn⟩
        cases before with
        | nil =>
          cases hsplit
          exact .inl hn
        | cons other before =>
          cases hsplit
          exact .inr ⟨before, member, after, rfl, (List.not_mem_of_not_mem_cons hnone), hn⟩

/-- Names stand behind the members before them only if none of these is `any`. -/
theorem mem_unguardedMembers_append {name : String} {before after : List Shape} :
    name ∈ unguardedMembers (before ++ after) ↔
      name ∈ unguardedMembers before ∨ .any ∉ before ∧ name ∈ unguardedMembers after := by
  induction before with
  | nil => simp [unguardedMembers]
  | cons first rest ih =>
    rw [List.cons_append]
    by_cases hany : first = .any
    · subst hany
      simp [unguardedMembers_any]
    · have hnone : .any ∉ first :: rest ↔ .any ∉ rest := by
        rw [List.mem_cons, not_or]
        exact and_iff_right (Ne.symm hany)
      rw [unguardedMembers_cons hany, unguardedMembers_cons hany, List.mem_append, List.mem_append,
        ih, hnone, or_assoc]

theorem mem_unguarded_iff {name : String} : name ∈ shape.unguarded ↔ shape.Exposed name := by
  constructor
  · intro h
    induction shape with
    | reference target =>
      rw [unguarded, List.mem_singleton] at h
      subst h
      exact .reference
    | union members ih =>
      rw [unguarded] at h
      obtain ⟨before, member, after, rfl, hany, hn⟩ := mem_unguardedMembers_iff.1 h
      have hm : member ∈ before ++ member :: after :=
        List.mem_append_right _ List.mem_cons_self
      exact .union hany (ih member hm hn)
    | _ => simp [unguarded] at h
  · intro h
    induction h with
    | reference => exact List.mem_cons_self
    | @union before after member hany _ ih =>
      rw [unguarded]
      exact mem_unguardedMembers_iff.2 ⟨before, member, after, rfl, hany, ih⟩

end Shape

/-! ## Reached shapes -/

namespace Definitions

variable {ds : Definitions} {shape piece : Shape} {S : Shape → Prop}

/-- A shape reaches its own parts, and the parts of a definition whose name it reaches. -/
inductive Reaches (ds : Definitions) (shape : Shape) : Shape → Prop where
  | part {piece : Shape} (h : piece.Part shape) : Reaches ds shape piece
  | target {name : String} {target piece : Shape} (h : Reaches ds shape (.alias name))
      (hd : ds.get? name = some target) (hp : piece.Part target) : Reaches ds shape piece

/-- A property of shapes is handed on to whatever a check of a value can come to. -/
structure Closed (ds : Definitions) (S : Shape → Prop) : Prop where
  element : ∀ {element}, S (.array element) → S element
  property : ∀ {properties p}, S (.object properties) → p ∈ properties → S p.shape
  member : ∀ {members member}, S (.union members) → member ∈ members → S member
  target : ∀ {name target}, S (.alias name) → ds.get? name = some target → S target

theorem Closed.of_part (hS : ds.Closed S) (h : piece.Part shape) (hs : S shape) : S piece := by
  induction h with
  | whole => exact hs
  | element _ ih => exact hS.element (ih hs)
  | property _ hp ih => exact hS.property (ih hs) hp
  | member _ hm ih => exact hS.member (ih hs) hm

theorem Closed.of_reaches (hS : ds.Closed S) (hs : S shape) (h : ds.Reaches shape piece) :
    S piece := by
  induction h with
  | part h => exact hS.of_part h hs
  | target _ hd hp ih => exact hS.of_part hp (hS.target ih hd)

/-- What is reached is closed, and it is the least that is. -/
theorem closed_reaches (ds : Definitions) (shape : Shape) : ds.Closed (ds.Reaches shape) where
  element h := by
    cases h with
    | part h => exact .part h.element
    | target h hd hp => exact .target h hd hp.element
  property h hp := by
    cases h with
    | part h => exact .part (h.property hp)
    | target h hd hpart => exact .target h hd (hpart.property hp)
  member h hm := by
    cases h with
    | part h => exact .part (h.member hm)
    | target h hd hpart => exact .target h hd (hpart.member hm)
  target h hd := .target h hd (.whole _)

theorem reaches_self (ds : Definitions) (shape : Shape) : ds.Reaches shape shape :=
  .part (.whole shape)

/-- The shapes that are one step away: what a shape is made of, or what it refers to. -/
def next (ds : Definitions) : Shape → List Shape
  | .alias name => (ds.get? name).toList
  | .array element => [element]
  | .object properties => properties.map Property.shape
  | .union members => members
  | _ => []

/-- Finitely many shapes are closed if no step leads away from them. -/
theorem closed_of_next {shapes : List Shape}
    (h : ∀ shape ∈ shapes, ∀ piece ∈ ds.next shape, piece ∈ shapes) :
    ds.Closed (· ∈ shapes) where
  element hs := h _ hs _ List.mem_cons_self
  property hs hp := h _ hs _ (List.mem_map.2 ⟨_, hp, rfl⟩)
  member hs hm := h _ hs _ hm
  target hs hd := h _ hs _ (Option.mem_toList.2 hd)

end Definitions

end JsonShape
