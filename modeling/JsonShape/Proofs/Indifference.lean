import JsonShape.Proofs.Creation
import JsonShape.Proofs.Deletion
import JsonShape.Proofs.Occurrences

/-!
# Proofs: undeclared data makes no difference

If no object that a shape reaches declares a key of `K`, then the entries under these keys cannot be
seen by a lenient check nor by rebuilding: two values with the same rest are treated alike, and what
is made of them has the same rest. Only `any` lets such entries through.

With no keys to delete this says that a value has only one projection, so creation is described
completely by the lenient check and by projection.
-/

namespace JsonShape

variable {ds : Definitions} {K : String → Bool} {S : Shape → Prop} {shape : Shape}
  {value rebuilt other left right : Json}

/-- None of the objects among the shapes `S` declares a key of `K`. -/
def Undeclared (K : String → Bool) (S : Shape → Prop) : Prop :=
  ∀ properties, S (.object properties) → ∀ p ∈ properties, K p.name = false

/-! ## Checks -/

theorem Literal.isScalar_of_accepts {l : Literal} (h : l.accepts value = true) :
    value.isScalar = true := by
  cases value with
  | array | object => cases l <;> cases h
  | _ => rfl

/-- What has the shape of a leaf other than `any` is scalar. -/
theorem Conforms.isScalar {lenient : Bool} (h : Conforms ds lenient shape (some value))
    (hleaf : shape.isLeaf = true) (hany : shape ≠ .any) : value.isScalar = true := by
  cases h with
  | any => exact absurd rfl hany
  | boolean | null | number | string => rfl
  | literal h => exact Literal.isScalar_of_accepts h
  | _ => cases hleaf

/-- A scalar is alike only to itself. -/
theorem eq_some_of_alike {y : Option Json} (h : value.isScalar = true)
    (hsame : (some value).map (Json.without K) = y.map (Json.without K)) : y = some value := by
  cases y with
  | none => cases hsame
  | some other => rw [Json.eq_of_without_scalar h (Option.some.inj hsame)]

/-- A lenient check cannot tell values with the same rest apart. -/
theorem Conforms.alike (hS : ds.Closed S) (hK : Undeclared K S) {x y : Option Json}
    (h : Conforms ds true shape x) (hs : S shape)
    (hsame : x.map (Json.without K) = y.map (Json.without K)) : Conforms ds true shape y := by
  -- on the derivation for the one value; the form of the other one follows from the same rest
  induction h generalizing y with
  | any => exact .any y
  | boolean b =>
    rw [eq_some_of_alike rfl hsame]
    exact .boolean b
  | null =>
    rw [eq_some_of_alike rfl hsame]
    exact .null
  | number n =>
    rw [eq_some_of_alike rfl hsame]
    exact .number n
  | string s =>
    rw [eq_some_of_alike rfl hsame]
    exact .string s
  | undefined =>
    rw [Option.map_eq_none_iff.1 hsame.symm]
    exact .undefined
  | literal h =>
    rw [eq_some_of_alike (Literal.isScalar_of_accepts h) hsame]
    exact .literal h
  | @array element items _ ih =>
    obtain ⟨value, rfl, hvalue⟩ := Option.map_eq_some_iff.1 hsame.symm
    obtain ⟨items', rfl, hitems⟩ := Json.exists_of_without_array hvalue.symm
    refine .array fun item' hitem' => ?_
    have hmem : item'.without K ∈ items.map (Json.without K) := by
      rw [hitems]
      exact List.mem_map.2 ⟨item', hitem', rfl⟩
    obtain ⟨item, hitem, heq⟩ := List.mem_map.1 hmem
    exact ih item hitem (hS.element hs) (congrArg some heq)
  | @object properties entries _ _ _ ihpresent ihmissing =>
    obtain ⟨value, rfl, hvalue⟩ := Option.map_eq_some_iff.1 hsame.symm
    obtain ⟨entries', rfl, hentries⟩ := Json.exists_of_without_object hvalue.symm
    have hfind : ∀ p ∈ properties, (Json.find? p.name entries).map (Json.without K) =
        (Json.find? p.name entries').map (Json.without K) :=
      fun p hp => Json.find?_of_withoutEntries hentries (hK properties hs p hp)
    refine .object (.inl rfl) (fun p hp child' hchild' => ?_) fun p hp hrequired hmissing => ?_
    · have hchild := hfind p hp
      rw [hchild'] at hchild
      obtain ⟨child, hold, heq⟩ := Option.map_eq_some_iff.1 hchild
      exact ihpresent p hp child hold (hS.property hs hp) (congrArg some heq)
    · have hnone := hfind p hp
      rw [hmissing] at hnone
      exact ihmissing p hp hrequired (Option.map_eq_none_iff.1 hnone) (hS.property hs hp) rfl
  | union hm _ ih => exact .union hm (ih (hS.member hs hm) hsame)
  | reference hd _ ih => exact .reference hd (ih (hS.target hs hd) hsame)

theorem conforms_iff_of_without_eq (hS : ds.Closed S) (hK : Undeclared K S) (hs : S shape)
    (hsame : left.without K = right.without K) :
    Conforms ds true shape (some left) ↔ Conforms ds true shape (some right) := by
  constructor
  · intro h
    exact h.alike hS hK hs (congrArg some hsame)
  · intro h
    exact h.alike hS hK hs (congrArg some hsame.symm)

/-! ## Projections -/

/-- A list of members has only one first accepting member, for tests that agree. -/
theorem eq_of_first_accepting {before before' after after' : List Shape} {member member' : Shape}
    {accepts accepts' : Shape → Prop}
    (hsplit : before ++ member :: after = before' ++ member' :: after')
    (hagree : ∀ m ∈ before ++ member :: after, accepts m ↔ accepts' m)
    (hbefore : ∀ m ∈ before, ¬accepts m) (hbefore' : ∀ m ∈ before', ¬accepts' m)
    (hmember : accepts member) (hmember' : accepts' member') : member = member' := by
  induction before generalizing before' with
  | nil =>
    cases before' with
    | nil =>
      cases hsplit
      rfl
    | cons first rest =>
      cases hsplit
      exact absurd ((hagree _ List.mem_cons_self).1 hmember) (hbefore' _ List.mem_cons_self)
  | cons first rest ih =>
    cases before' with
    | nil =>
      cases hsplit
      exact absurd ((hagree _ List.mem_cons_self).2 hmember') (hbefore _ List.mem_cons_self)
    | cons first' rest' =>
      rw [List.cons_append, List.cons_append] at hsplit
      injection hsplit with _ hrest
      exact ih hrest (fun m hm => hagree m (List.mem_cons_of_mem _ hm))
        (fun m hm => hbefore m (List.mem_cons_of_mem _ hm))
        fun m hm => hbefore' m (List.mem_cons_of_mem _ hm)

namespace Projects

/-- What is found in a projected object is declared, and it was there before. -/
theorem exists_of_find?_eq_some {properties : List Property}
    {entries entries' : List (String × Json)} {key : String} {new : Json}
    (hkeys : ∀ key, key ∈ Json.keys entries' ↔
      key ∈ properties.map Property.name ∧ key ∈ Json.keys entries)
    (hnew : Json.find? key entries' = some new) :
    ∃ p ∈ properties, p.name = key ∧ ∃ old, Json.find? key entries = some old := by
  obtain ⟨hdeclared, hpresent⟩ := (hkeys key).1 (Json.mem_keys_iff.2 ⟨new, hnew⟩)
  obtain ⟨p, hp, hname⟩ := List.mem_map.1 hdeclared
  exact ⟨p, hp, hname, Json.mem_keys_iff.1 hpresent⟩

/-- Objects projected from objects that agree under a key agree there too, if the projections of the
values do. -/
theorem map_find?_eq {properties : List Property} {entries entries' new new' : List (String × Json)}
    {key : String}
    (hkeys : ∀ key, key ∈ Json.keys new ↔
      key ∈ properties.map Property.name ∧ key ∈ Json.keys entries)
    (hkeys' : ∀ key, key ∈ Json.keys new' ↔
      key ∈ properties.map Property.name ∧ key ∈ Json.keys entries')
    (hfind : (Json.find? key entries).map (Json.without K) =
      (Json.find? key entries').map (Json.without K))
    (hvalues : ∀ p ∈ properties, p.name = key → ∀ old old' made made',
      Json.find? key entries = some old → Json.find? key entries' = some old' →
      Json.find? key new = some made → Json.find? key new' = some made' →
      old.without K = old'.without K → made.without K = made'.without K) :
    (Json.find? key new).map (Json.without K) = (Json.find? key new').map (Json.without K) := by
  have hmem : key ∈ Json.keys new ↔ key ∈ Json.keys new' := by
    rw [hkeys, hkeys', Json.mem_keys_congr hfind]
  cases hmade : Json.find? key new with
  | none =>
    have hnone := Json.find?_eq_none_iff.1 hmade
    rw [Json.find?_eq_none_iff.2 fun hm => hnone (hmem.2 hm)]
  | some made =>
    obtain ⟨made', hmade'⟩ := Json.mem_keys_iff.1 (hmem.1 (Json.mem_keys_iff.2 ⟨made, hmade⟩))
    obtain ⟨p, hp, hname, old, hold⟩ := exists_of_find?_eq_some hkeys hmade
    obtain ⟨-, -, -, old', hold'⟩ := exists_of_find?_eq_some hkeys' hmade'
    have hchildren : old.without K = old'.without K := by
      rw [hold, hold'] at hfind
      exact Option.some.inj hfind
    rw [hmade']
    exact congrArg some (hvalues p hp hname old old' made made' hold hold' hmade hmade' hchildren)

/-- Projections of values with the same rest have the same rest. -/
theorem without_eq_without (hS : ds.Closed S) (hK : Undeclared K S)
    (h : Projects ds shape left rebuilt) (h' : Projects ds shape right other) (hs : S shape)
    (hsame : left.without K = right.without K) : rebuilt.without K = other.without K := by
  induction h generalizing right other with
  | leaf hleaf =>
    cases h' with
    | leaf => exact hsame
    | _ => cases hleaf
  | array hlength _ ih =>
    cases h' with
    | leaf hleaf => cases hleaf
    | array hlength' hpairs' =>
      rw [Json.without_array, Json.without_array] at hsame ⊢
      refine congrArg Json.array ?_
      refine map_eq_of_zip hlength hlength' (Json.array.inj hsame) fun pair hp pair' hp' => ?_
      exact ih pair hp (hpairs' pair' hp') (hS.element hs)
  | @object properties entries rebuilt hsorted hkeys _ ih =>
    cases h' with
    | leaf hleaf => cases hleaf
    | @object _ entries' other hsorted' hkeys' hvalues' =>
      rw [Json.without_object, Json.without_object] at hsame ⊢
      have hentries := Json.object.inj hsame
      refine congrArg Json.object ?_
      refine Json.withoutEntries_eq hsorted hsorted' fun key hkey => ?_
      refine map_find?_eq hkeys hkeys' (Json.find?_of_withoutEntries hentries hkey) ?_
      rintro p hp rfl old old' new new' hold hold' hnew hnew' hchildren
      exact ih p hp old new hold hnew (hvalues' p hp old' new' hold' hnew') (hS.property hs hp)
        hchildren
  | @union members before after member value rebuilt hsplit hbefore hmember _ ih =>
    cases h' with
    | leaf hleaf => cases hleaf
    | union hsplit' hbefore' hmember' h' =>
      subst hsplit
      -- both values are accepted by the same members, so it is the same one that comes first
      have hagree : ∀ m ∈ before ++ member :: after,
          Conforms ds true m (some value) ↔ Conforms ds true m (some right) :=
        fun m hm => conforms_iff_of_without_eq hS hK (hS.member hs hm) hsame
      have heq := eq_of_first_accepting hsplit' hagree hbefore hbefore' hmember hmember'
      subst heq
      exact ih h' (hS.member hs (List.mem_append_right _ List.mem_cons_self)) hsame
  | reference hd _ ih =>
    cases h' with
    | leaf hleaf => cases hleaf
    | reference hd' h' =>
      rw [hd] at hd'
      cases hd'
      exact ih h' (hS.target hs hd) hsame

theorem unique (h : Projects ds shape value rebuilt) (h' : Projects ds shape value other) :
    rebuilt = other := by
  have hall : ds.Closed fun _ => True :=
    ⟨fun _ => trivial, fun _ _ => trivial, fun _ _ => trivial, fun _ _ => trivial⟩
  have hnothing : Undeclared (fun _ => false) fun _ => True := fun _ _ _ _ => rfl
  have hsame := h.without_eq_without hall hnothing h' trivial rfl
  rwa [Json.without_nothing, Json.without_nothing] at hsame

/-- Without `any` nothing is left of the keys that are not declared. -/
theorem without_eq_self (hS : ds.Closed S) (hK : Undeclared K S) (hany : ¬S .any)
    (h : Projects ds shape value rebuilt) (hc : Conforms ds true shape (some value))
    (hs : S shape) : rebuilt.without K = rebuilt := by
  induction h with
  | @leaf shape hleaf value =>
    have hne : shape ≠ .any := fun heq => hany (heq ▸ hs)
    exact Json.without_of_isScalar (hc.isScalar hleaf hne)
  | @array element items rebuilt hlength _ ih =>
    obtain ⟨_, ⟨⟩, hitems⟩ := Conforms.array_iff.1 hc
    have hkept : ∀ new ∈ rebuilt, new.without K = new := by
      intro new hnew
      obtain ⟨old, hold, hpair⟩ := exists_of_mem_right hlength hnew
      exact ih (old, new) hpair (hitems old hold) (hS.element hs)
    rw [Json.without_array, List.map_congr_left hkept, List.map_id']
  | @object properties entries rebuilt hsorted hkeys _ ih =>
    obtain ⟨_, ⟨⟩, -, hproperties⟩ := Conforms.object_iff.1 hc
    rw [Json.without_object]
    refine congrArg Json.object ?_
    refine Json.eq_of_find?_eq (Json.pairwise_keys_withoutEntries hsorted) hsorted fun key => ?_
    rw [Json.find?_withoutEntries]
    cases hnew : Json.find? key rebuilt with
    | none => simp
    | some new =>
      obtain ⟨p, hp, rfl, old, hold⟩ := exists_of_find?_eq_some hkeys hnew
      have hchild := hproperties p hp (by simp [hold])
      rw [hold] at hchild
      have hkept := ih p hp old new hold hnew hchild (hS.property hs hp)
      rw [hK properties hs p hp]
      exact congrArg some hkept
  | @union members before after member value rebuilt hsplit _ hmember _ ih =>
    subst hsplit
    exact ih hmember (hS.member hs (List.mem_append_right _ List.mem_cons_self))
  | reference hd _ ih =>
    exact ih ((Conforms.reference_iff hd).1 hc) (hS.target hs hd)

end Projects

/-! ## Creation -/

/-- A value is created exactly if the lenient check passes and it is the projection. -/
theorem Definitions.WellFormed.create_eq_ok_iff (hw : ds.WellFormed) {slot : Nat}
    {d : Definition} (h : ds.types[slot]? = some d) :
    (ds.binding slot d).create value = .ok rebuilt ↔
      Conforms ds true d.shape (some value) ∧ Projects ds d.shape value rebuilt := by
  rw [← hw.validate_decides h value]
  rcases hw.create_cases h value with ⟨failure, hcheck, hcreate⟩ | ⟨made, hcheck, hcreate, hmade⟩
  · rw [hcheck, hcreate]
    simp
  · rw [hcheck, hcreate]
    constructor
    · intro heq
      cases heq
      exact ⟨rfl, hmade⟩
    · rintro ⟨-, hprojects⟩
      rw [hmade.unique hprojects]

/-- Entries under keys that no reached object declares make no difference to a lenient check nor to
creation: of two values that differ in nothing else both are accepted or none, and what is created
of them differs in nothing else. If `any` is not reached either, nothing is left of these keys, and
the same is created of both. -/
theorem Binding.create_ignores_undeclared {r : Registry} (hr : Registry.compile ds = .ok r)
    {name : String} (hd : ds.get? name = some shape)
    (hK : ∀ properties, ds.Reaches shape (.object properties) →
      ∀ p ∈ properties, K p.name = false)
    (hsame : left.without K = right.without K) :
    ∃ b, r.get? name = some b ∧
      (b.validate true left = .ok () ↔ b.validate true right = .ok ()) ∧
      ((∃ new, b.create left = .ok new) ↔ ∃ new, b.create right = .ok new) ∧
      ∀ new new', b.create left = .ok new → b.create right = .ok new' →
        new.without K = new'.without K ∧
        (¬ds.Reaches shape .any →
          new = new' ∧ ∀ key, K key = true → ¬new.HasKey key ∧ ¬new'.HasKey key) := by
  obtain ⟨hw, rfl⟩ := Registry.compile_eq_ok hr
  have hslot := (Definitions.get?_eq_some_iff hw.distinct).1 hd
  have hS := ds.closed_reaches shape
  have hs := ds.reaches_self shape
  have hiff := conforms_iff_of_without_eq hS hK hs hsame
  refine ⟨_, Definitions.get?_link hw.distinct hslot, ?_, ?_, fun new new' hnew hnew' => ?_⟩
  · rw [hw.validate_decides hslot, hw.validate_decides hslot, hiff]
  · rw [hw.exists_create_iff hslot, hw.exists_create_iff hslot, hw.validate_decides hslot,
      hw.validate_decides hslot, hiff]
  · obtain ⟨hc, hprojects⟩ := (hw.create_eq_ok_iff hslot).1 hnew
    obtain ⟨hc', hprojects'⟩ := (hw.create_eq_ok_iff hslot).1 hnew'
    have hrest := hprojects.without_eq_without hS hK hprojects' hs hsame
    refine ⟨hrest, fun hany => ?_⟩
    have hself := hprojects.without_eq_self hS hK hany hc hs
    have hself' := hprojects'.without_eq_self hS hK hany hc' hs
    refine ⟨by rw [← hself, hrest, hself'], fun key hkey => ⟨?_, ?_⟩⟩
    · rw [← hself]
      exact Json.not_hasKey_without hkey
    · rw [← hself']
      exact Json.not_hasKey_without hkey

/-- What `Tree` reaches. -/
def Shape.treeParts : List Shape :=
  [Definition.tree.shape, .number, .alias "Forest", .array (.alias "Tree"), .alias "Tree"]

theorem Definitions.closed_treeParts : Definitions.forest.Closed (· ∈ Shape.treeParts) :=
  closed_of_next (by
    simp [Shape.treeParts, Definition.tree, Definition.forest, next, forest, get?])

/-- A tree with other undeclared keys than the wild one. -/
def Json.strayTree : Json :=
  .object [("children", .array [.object [("name", .array [.null]), ("value", .number .zero)]]),
    ("note", .object [("value", .string "1")]), ("value", .number .zero)]

/-- The same tree is created of two trees that differ only in names and notes. -/
theorem Binding.same_tree_created :
    Registry.compile .forest = .ok Definitions.forest.link ∧
      Definitions.forest.get? "Tree" = some Definition.tree.shape ∧
      Json.wildTree.without (fun key => key == "name" || key == "note") =
        Json.strayTree.without (fun key => key == "name" || key == "note") ∧
      (Definitions.forest.binding 0 .tree).create .wildTree = .ok .tameTree ∧
      (Definitions.forest.binding 0 .tree).create .strayTree = .ok .tameTree ∧
      ¬Json.tameTree.HasKey "note" := by
  have hr : Registry.compile .forest = .ok Definitions.forest.link := rfl
  have hd : Definitions.forest.get? "Tree" = some Definition.tree.shape := rfl
  have hsame : Json.wildTree.without (fun key => key == "name" || key == "note") =
      Json.strayTree.without (fun key => key == "name" || key == "note") := by
    simp [Json.wildTree, Json.strayTree, Json.without, Json.withoutItems, Json.withoutEntries]
  have hparts : ∀ {piece}, Definitions.forest.Reaches Definition.tree.shape piece →
      piece ∈ Shape.treeParts :=
    fun h => Definitions.closed_treeParts.of_reaches List.mem_cons_self h
  have hK : ∀ properties, Definitions.forest.Reaches Definition.tree.shape (.object properties) →
      ∀ p ∈ properties, (p.name == "name" || p.name == "note") = false := by
    intro properties hreached p hp
    have hmem := hparts hreached
    simp only [Shape.treeParts, Definition.tree, List.mem_cons, Shape.object.injEq, reduceCtorEq,
      List.not_mem_nil, or_false] at hmem
    subst hmem
    simp only [List.mem_cons, List.not_mem_nil, or_false] at hp
    rcases hp with rfl | rfl <;> decide
  have hany : ¬Definitions.forest.Reaches Definition.tree.shape .any := by
    intro hreached
    have hmem := hparts hreached
    simp [Shape.treeParts, Definition.tree] at hmem
  obtain ⟨b, hb, -, hiff, hcreated⟩ := Binding.create_ignores_undeclared hr hd hK hsame
  have hbinding : Definitions.forest.link.get? "Tree" =
      some (Definitions.forest.binding 0 .tree) := rfl
  rw [hbinding] at hb
  cases hb
  have hwild : (Definitions.forest.binding 0 .tree).create .wildTree = .ok .tameTree := rfl
  obtain ⟨stray, hstray⟩ := hiff.1 ⟨_, hwild⟩
  obtain ⟨-, hidentical⟩ := hcreated _ _ hwild hstray
  obtain ⟨heq, hkeys⟩ := hidentical hany
  rw [← heq] at hstray
  exact ⟨hr, hd, hsame, hwild, hstray, (hkeys "note" rfl).1⟩

end JsonShape
