import JsonShape.Shape.Reader
import JsonShape.Proofs.Results
import JsonShape.Proofs.Values

/-!
# Proofs: fields of a document

What a reader learns from the entries of an object depends only on the values that stand under each
of the keys it looks for (`Json.valuesOf`): none or exactly one, since a second value for a field is
refused. `Collects` says this for a single field, and the readers of this library, which go through
the entries in very different ways, are all described by it.
-/

namespace JsonShape

namespace Json

variable {key other : String} {value : Json} {entries rest : List (String × Json)}

/-- The values under a key, one for each time the key occurs. -/
def valuesOf (key : String) : List (String × Json) → List Json
  | [] => []
  | (k, v) :: rest => if k = key then v :: valuesOf key rest else valuesOf key rest

@[simp]
theorem valuesOf_cons_self : valuesOf key ((key, value) :: rest) = value :: valuesOf key rest := by
  rw [valuesOf, if_pos rfl]

theorem valuesOf_cons_ne (h : other ≠ key) :
    valuesOf key ((other, value) :: rest) = valuesOf key rest := by
  rw [valuesOf, if_neg h]

end Json

open Json (valuesOf)

/-! ## Nodes of values -/

namespace Node

theorem ofItems_each (total : Nat) (part : Interest) (items : List Json) :
    ofItems total (.each part) items = items.map (ofJson part) := by
  induction items with
  | nil => rfl
  | cons item rest ih => rw [ofItems, ih, List.map_cons]

theorem ofJson_array (items : List Json) :
    ofJson .whole (.array items) = .sequence (items.map (ofJson .whole)) := by
  rw [ofJson, Interest.supply, ofItems_each]

/-- Nothing is missing from the node of a value. -/
theorem fault?_ofJson (value : Json) : (ofJson .whole value).fault? = none := by
  induction value with
  | array items ih =>
    rw [ofJson_array, fault?]
    induction items with
    | nil => rfl
    | cons item rest ihrest =>
      obtain ⟨hitem, hrest⟩ := List.forall_mem_cons.1 ih
      rw [List.map_cons, faultItems?, hitem, ihrest hrest]
      rfl
  | object entries ih =>
    rw [ofJson, fault?]
    induction entries with
    | nil => rfl
    | cons entry rest ihrest =>
      obtain ⟨hentry, hrest⟩ := List.forall_mem_cons.1 ih
      simp only [ofEntries, Interest.member, faultEntries?, hentry, ihrest hrest]
      rfl
  | _ => rfl

theorem whole_ofJson (value : Json) : (ofJson .whole value).whole = .ok () := by
  rw [whole, fault?_ofJson]

variable {value : Json}

theorem string?_ofJson {s : String} {part : Interest} :
    (Node.ofJson part value).string? = .ok s ↔ value = .string s := by
  cases value <;> simp [Node.ofJson, string?, refuse]

theorem bool?_ofJson {b : Bool} {part : Interest} :
    (Node.ofJson part value).bool? = .ok b ↔ value = .bool b := by
  cases value <;> simp [Node.ofJson, bool?, refuse]

theorem literal_ofJson {literal : Literal} {part : Interest} :
    Literal.ofNode (Node.ofJson part value) = .ok literal ↔ value = literal.toJson := by
  cases value <;> cases literal <;> simp [Node.ofJson, Literal.ofNode, Literal.toJson, mismatch]

end Node

/-! ## One field -/

/-- What is known of a field after its values have been read: what was known before, or what its
only value says. -/
inductive Collects {α : Type} (decode : Json → Except Fault α) :
    Option α → List Json → Option α → Prop where
  | kept (known : Option α) : Collects decode known [] known
  | read {value : Json} {x : α} (h : decode value = .ok x) : Collects decode none [value] (some x)

section Collects

variable {α : Type} {decode : Json → Except Fault α} {known total : Option α} {value : Json}
  {values : List Json} {x : α}

theorem collects_nil : Collects decode known [] total ↔ total = known := by
  constructor
  · intro h
    cases h
    rfl
  · rintro rfl
    exact .kept total

theorem collects_cons : Collects decode known (value :: values) total ↔
    known = none ∧ ∃ x, decode value = .ok x ∧ Collects decode (some x) values total := by
  constructor
  · intro h
    cases h with
    | read h => exact ⟨rfl, _, h, .kept _⟩
  · rintro ⟨rfl, x, hx, hrest⟩
    cases hrest
    exact .read hx

theorem collects_known : Collects decode (some x) values total ↔ values = [] ∧ total = some x := by
  constructor
  · intro h
    cases h
    exact ⟨rfl, rfl⟩
  · rintro ⟨rfl, rfl⟩
    exact .kept _

theorem collects_some : Collects decode none values (some x) ↔
    ∃ value, values = [value] ∧ decode value = .ok x := by
  constructor
  · intro h
    cases h with
    | read h => exact ⟨_, rfl, h⟩
  · rintro ⟨value, rfl, h⟩
    exact .read h

theorem collects_none : Collects decode none values none ↔ values = [] := by
  constructor
  · intro h
    cases h
    rfl
  · rintro rfl
    exact .kept none

end Collects

/-! ## Members of an object -/

section Members

variable {α : Type} {field key : String} {decode : Node → Except Fault α}
  {entries : List (String × Json)}

theorem present_eq_ok_iff {x : α} {known : Option α} :
    present field known = .ok x ↔ known = some x := by
  cases known <;> simp [present, mismatch]

theorem fresh_bind_iff {β : Type} {known : Option α} {next : Unit → Except Fault β} {y : β} :
    fresh field known >>= next = .ok y ↔ known = none ∧ next () = .ok y := by
  cases known <;> simp [fresh, mismatch]

theorem required_eq_ok_iff {title : String} {fields : List String} {place : Nat}
    {isSequence : Bool} {x : α} {known : Option α} :
    required title fields place isSequence known = .ok x ↔ known = some x := by
  cases known <;> cases isSequence <;> simp [required, mismatch]

theorem fieldOf?_self (key : String) : fieldOf? [key] (.string key) = .ok (some 0) := by
  simp [fieldOf?, List.idxOf?, List.findIdx?_cons]

theorem fieldOf?_ne (h : key ≠ field) : fieldOf? [field] (.string key) = .ok none := by
  simp [fieldOf?, List.idxOf?, List.findIdx?_cons, h.symm]

theorem noRepetition_iff : noRepetition field (Node.ofEntries .whole entries) = .ok () ↔
    valuesOf field entries = [] := by
  induction entries with
  | nil => exact ⟨fun _ => rfl, fun _ => rfl⟩
  | cons entry rest ih =>
    obtain ⟨key, value⟩ := entry
    simp only [Node.ofEntries, Interest.member, noRepetition]
    by_cases hkey : key = field
    · subst hkey
      simp [fieldOf?_self, mismatch]
    · rw [fieldOf?_ne hkey, Json.valuesOf_cons_ne hkey]
      exact ih

theorem memberOf?_iff {total : Option α} :
    memberOf? field decode (Node.ofEntries .whole entries) = .ok total ↔
      Collects (fun value => decode (.ofJson .whole value)) none (valuesOf field entries) total := by
  induction entries with
  | nil =>
    rw [valuesOf, collects_nil, eq_comm]
    simp [Node.ofEntries, memberOf?]
  | cons entry rest ih =>
    obtain ⟨key, value⟩ := entry
    simp only [Node.ofEntries, Interest.member, memberOf?]
    by_cases hkey : key = field
    · -- the entries after the one for the field are only searched for a second one
      subst hkey
      simp only [fieldOf?_self, Json.valuesOf_cons_self, collects_cons, collects_known,
        bind_eq_ok_iff, pure_eq_ok, Except.ok.injEq, true_and]
      constructor
      · rintro ⟨x, hx, ⟨⟩, hnone, htotal⟩
        exact ⟨x, hx, noRepetition_iff.1 hnone, htotal.symm⟩
      · rintro ⟨x, hx, hnone, htotal⟩
        exact ⟨x, hx, (), noRepetition_iff.2 hnone, htotal.symm⟩
    · rw [fieldOf?_ne hkey, Json.valuesOf_cons_ne hkey]
      exact ih

theorem noSurplus_iff {used : Nat} {rest : List Node} : noSurplus used rest = .ok () ↔ rest = [] := by
  cases rest <;> simp [noSurplus, mismatch]

end Members

/-! ## Entries and items one by one -/

section Folding

variable {σ : Type} {fields : List String} {step : σ → Nat → Node → Except Fault σ}
  {known total : σ} {place : Nat} {rest : List Node}

/-- An entry for a field is decoded where it stands, before the entries after it. -/
theorem foldEntries_field {key : String} {node : Node} {rest : List (Node × Node)}
    (hkey : fields.idxOf? key = some place) :
    Node.foldEntries fields step known ((.string key, node) :: rest) = .ok total ↔
      ∃ next, step known place node = .ok next ∧
        Node.foldEntries fields step next rest = .ok total := by
  rw [Node.foldEntries, fieldOf?, hkey]
  cases hstep : step known place node <;> simp [hstep]

theorem foldItems_item {value : Json} {part : Interest} :
    Node.foldItems step known place (.ofJson part value :: rest) = .ok total ↔
      ∃ next, step known place (.ofJson part value) = .ok next ∧
        Node.foldItems step next (place + 1) rest = .ok total := by
  have hbroken : ∀ fault, Node.ofJson part value ≠ .broken fault := by
    intro fault h
    cases value <;> cases h
  rw [Node.foldItems]
  · cases hstep : step known place (.ofJson part value) <;> simp
  · exact hbroken

end Folding

/-! ## Lists -/

/-- Values are decoded item by item, each as what it spells. -/
theorem mapM_ofJson_iff {α : Type} {decode : Node → Except Fault α} {part : Interest}
    {spells : Json → α → Prop} {items : List Json} {xs : List α}
    (h : ∀ x ∈ xs, ∀ item, decode (.ofJson part item) = .ok x ↔ spells item x) :
    (items.map (Node.ofJson part)).mapM decode = .ok xs ↔ List.Forall₂ spells items xs := by
  rw [mapM_eq_ok_iff, List.forall₂_map_left_iff]
  induction xs generalizing items with
  | nil => simp
  | cons x xs ih =>
    obtain ⟨hx, hxs⟩ := List.forall_mem_cons.1 h
    cases items with
    | nil => simp
    | cons item items => rw [List.forall₂_cons, List.forall₂_cons, hx, ih hxs]

/-! ## Records of two fields -/

/-- A reader of records keeps what it is told about the first of two fields and about the second,
each of which it may be told once. -/
structure KeepsTwo {σ α β : Type} (make : Option α → Option β → σ)
    (step : σ → Nat → Node → Except Fault σ) (decodeFirst : Node → Except Fault α)
    (decodeSecond : Node → Except Fault β) : Prop where
  make_inj : ∀ {a a' b b'}, make a b = make a' b' → a = a' ∧ b = b'
  step_zero : ∀ {a b node total}, step (make a b) 0 node = .ok total ↔
    a = none ∧ ∃ x, decodeFirst node = .ok x ∧ make (some x) b = total
  step_one : ∀ {a b node total}, step (make a b) 1 node = .ok total ↔
    b = none ∧ ∃ y, decodeSecond node = .ok y ∧ make a (some y) = total

namespace KeepsTwo

variable {σ α β : Type} {make : Option α → Option β → σ} {step : σ → Nat → Node → Except Fault σ}
  {decodeFirst : Node → Except Fault α} {decodeSecond : Node → Except Fault β}
  {firstKey secondKey : String} {firstPart secondPart : Interest} {a a' : Option α}
  {b b' : Option β}

theorem foldEntries_iff (h : KeepsTwo make step decodeFirst decodeSecond)
    (hkeys : firstKey ≠ secondKey) {entries : List (String × Json)} :
    Node.foldEntries [firstKey, secondKey] step (make a b) (Node.ofEntries
        (.record [(firstKey, firstPart), (secondKey, secondPart)]) entries) = .ok (make a' b') ↔
      Collects (fun value => decodeFirst (.ofJson firstPart value)) a (valuesOf firstKey entries)
        a' ∧
      Collects (fun value => decodeSecond (.ofJson secondPart value)) b (valuesOf secondKey entries)
        b' := by
  induction entries generalizing a b with
  | nil =>
    simp only [Node.ofEntries, Node.foldEntries, valuesOf, collects_nil, Except.ok.injEq]
    constructor
    · intro heq
      obtain ⟨rfl, rfl⟩ := h.make_inj heq
      exact ⟨rfl, rfl⟩
    · rintro ⟨rfl, rfl⟩
      rfl
  | cons entry rest ih =>
    obtain ⟨key, value⟩ := entry
    by_cases hfirst : key = firstKey
    · subst hfirst
      rw [Json.valuesOf_cons_self, Json.valuesOf_cons_ne hkeys, Node.ofEntries]
      simp only [Interest.member, List.lookup_cons, beq_self_eq_true]
      have hplace : [key, secondKey].idxOf? key = some 0 := by
        simp [List.idxOf?, List.findIdx?_cons]
      simp only [foldEntries_field hplace, h.step_zero, collects_cons]
      constructor
      · rintro ⟨_, ⟨hnone, x, hx, rfl⟩, hrest⟩
        obtain ⟨hfirst, hsecond⟩ := ih.1 hrest
        exact ⟨⟨hnone, x, hx, hfirst⟩, hsecond⟩
      · rintro ⟨⟨hnone, x, hx, hfirst⟩, hsecond⟩
        exact ⟨_, ⟨hnone, x, hx, rfl⟩, ih.2 ⟨hfirst, hsecond⟩⟩
    · by_cases hsecond : key = secondKey
      · subst hsecond
        rw [Json.valuesOf_cons_self, Json.valuesOf_cons_ne hfirst, Node.ofEntries]
        simp only [Interest.member, List.lookup_cons, beq_self_eq_true, beq_eq_false_iff_ne.2 hfirst]
        have hplace : [firstKey, key].idxOf? key = some 1 := by
          simp [List.idxOf?, List.findIdx?_cons, hkeys]
        simp only [foldEntries_field hplace, h.step_one, collects_cons]
        constructor
        · rintro ⟨_, ⟨hnone, y, hy, rfl⟩, hrest⟩
          obtain ⟨hfirst, hsecond⟩ := ih.1 hrest
          exact ⟨hfirst, hnone, y, hy, hsecond⟩
        · rintro ⟨hfirst, hnone, y, hy, hsecond⟩
          exact ⟨_, ⟨hnone, y, hy, rfl⟩, ih.2 ⟨hfirst, hsecond⟩⟩
      · rw [Json.valuesOf_cons_ne hfirst, Json.valuesOf_cons_ne hsecond, Node.ofEntries]
        simp only [Interest.member, List.lookup_cons, beq_eq_false_iff_ne.2 hfirst,
          beq_eq_false_iff_ne.2 hsecond]
        exact ih

theorem foldItems_zero (h : KeepsTwo make step decodeFirst decodeSecond) {value : Json}
    {rest : List Node} {total : σ} :
    Node.foldItems step (make none b) 0 (.ofJson firstPart value :: rest) = .ok total ↔
      ∃ x, decodeFirst (.ofJson firstPart value) = .ok x ∧
        Node.foldItems step (make (some x) b) 1 rest = .ok total := by
  simp only [foldItems_item, h.step_zero]
  constructor
  · rintro ⟨_, ⟨-, x, hx, rfl⟩, hrest⟩
    exact ⟨x, hx, hrest⟩
  · rintro ⟨x, hx, hrest⟩
    exact ⟨_, ⟨trivial, x, hx, rfl⟩, hrest⟩

theorem foldItems_one (h : KeepsTwo make step decodeFirst decodeSecond) {value : Json}
    {rest : List Node} {total : σ} :
    Node.foldItems step (make a none) 1 (.ofJson secondPart value :: rest) = .ok total ↔
      ∃ y, decodeSecond (.ofJson secondPart value) = .ok y ∧
        Node.foldItems step (make a (some y)) 2 rest = .ok total := by
  simp only [foldItems_item, h.step_one]
  constructor
  · rintro ⟨_, ⟨-, y, hy, rfl⟩, hrest⟩
    exact ⟨y, hy, hrest⟩
  · rintro ⟨y, hy, hrest⟩
    exact ⟨_, ⟨trivial, y, hy, rfl⟩, hrest⟩

/-- The first item of an array is about the first field and the second about the second; there may
be no third. -/
theorem foldItems_iff (h : KeepsTwo make step decodeFirst decodeSecond) {items : List Json} :
    Node.foldItems step (make none none) 0
        (Node.ofItems items.length (.fixed [firstPart, secondPart]) items) = .ok (make a b) ↔
      Collects (fun value => decodeFirst (.ofJson firstPart value)) none (items.take 1) a ∧
      Collects (fun value => decodeSecond (.ofJson secondPart value)) none (items.drop 1) b := by
  match items with
  | [] =>
    simp only [Node.ofItems, Node.foldItems, Except.ok.injEq, List.take_nil, List.drop_nil,
      collects_nil]
    constructor
    · intro heq
      obtain ⟨rfl, rfl⟩ := h.make_inj heq
      exact ⟨rfl, rfl⟩
    · rintro ⟨rfl, rfl⟩
      rfl
  | [value] =>
    simp only [Node.ofItems, h.foldItems_zero, Node.foldItems, Except.ok.injEq, List.take_succ_cons,
      List.take_zero, List.drop_succ_cons, List.drop_zero, collects_nil, collects_cons, true_and]
    constructor
    · rintro ⟨x, hx, heq⟩
      obtain ⟨rfl, rfl⟩ := h.make_inj heq
      exact ⟨⟨x, hx, rfl⟩, rfl⟩
    · rintro ⟨⟨x, hx, rfl⟩, rfl⟩
      exact ⟨x, hx, rfl⟩
  | [value, other] =>
    simp only [Node.ofItems, h.foldItems_zero, h.foldItems_one, Node.foldItems, Except.ok.injEq,
      List.take_succ_cons, List.take_zero, List.drop_succ_cons, List.drop_zero, collects_nil,
      collects_cons, true_and]
    constructor
    · rintro ⟨x, hx, y, hy, heq⟩
      obtain ⟨rfl, rfl⟩ := h.make_inj heq
      exact ⟨⟨x, hx, rfl⟩, y, hy, rfl⟩
    · rintro ⟨⟨x, hx, rfl⟩, y, hy, rfl⟩
      exact ⟨x, hx, y, hy, rfl⟩
  | value :: other :: third :: rest =>
    simp only [Node.ofItems, h.foldItems_zero, h.foldItems_one, Node.foldItems,
      List.drop_succ_cons, List.drop_zero, collects_cons]
    constructor
    · rintro ⟨x, hx, y, hy, ⟨⟩⟩
    · rintro ⟨-, -, y, hy, ⟨⟩, -⟩

end KeepsTwo

end JsonShape
