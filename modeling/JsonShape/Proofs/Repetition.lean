import JsonShape.Proofs.Trimming

/-!
# Proofs: creating twice

What has been created can be created again: nothing is refused the second time. But more may be left
out. A union member that does not accept a value may accept what a later member leaves of it; the
second time it is then the earlier member that decides, and it keeps only what it declares itself.

Where members discern the values of later members from their own, this cannot happen. They do if
their objects demand every property, and if a property with a literal tells the objects apart.
-/

namespace JsonShape

variable {ds : Definitions} {S : Shape → Prop} {shape other member : Shape} {value rebuilt : Json}

/-! ## Members that are not misled -/

/-- A shape does not begin to accept a value when another shape projects it. -/
def Discerns (ds : Definitions) (other member : Shape) : Prop :=
  ∀ value rebuilt, Conforms ds true member (some value) → Projects ds member value rebuilt →
    Conforms ds true other (some rebuilt) → Conforms ds true other (some value)

/-- In every union among the shapes `S` each member discerns the values of the later ones. -/
def Discerning (ds : Definitions) (S : Shape → Prop) : Prop :=
  ∀ before member after, S (.union (before ++ member :: after)) →
    ∀ other ∈ before, Discerns ds other member

/-- Where members discern the values of later ones a projection is its own projection. -/
theorem Projects.repeated (hS : ds.Closed S) (hdiscerning : Discerning ds S)
    (h : Projects ds shape value rebuilt) (hc : Conforms ds true shape (some value))
    (hs : S shape) : Projects ds shape rebuilt rebuilt := by
  induction h with
  | leaf hleaf value => exact .leaf hleaf value
  | @array element items rebuilt hlength _ ih =>
    obtain ⟨_, ⟨⟩, hitems⟩ := Conforms.array_iff.1 hc
    refine .array rfl fun pair hpair => ?_
    have hnew := (List.of_mem_zip hpair).2
    obtain ⟨old, hold, hfirst⟩ := exists_of_mem_right hlength hnew
    rw [eq_of_mem_zip_self hpair]
    exact ih (old, pair.2) hfirst (hitems old hold) (hS.element hs)
  | @object properties entries rebuilt hsorted hkeys _ ih =>
    obtain ⟨_, ⟨⟩, -, hproperties⟩ := Conforms.object_iff.1 hc
    refine .object hsorted (fun key => ?_) fun p hp new new' hnew hnew' => ?_
    · constructor
      · intro hkey
        exact ⟨((hkeys key).1 hkey).1, hkey⟩
      · exact And.right
    · rw [hnew] at hnew'
      cases hnew'
      obtain ⟨-, -, -, old, hold⟩ := exists_of_find?_eq_some hkeys hnew
      have hchild := hproperties p hp (by simp [hold])
      rw [hold] at hchild
      exact ih p hp old new hold hnew hchild (hS.property hs hp)
  | @union members before after member value rebuilt hsplit hbefore hmember hprojects ih =>
    subst hsplit
    have hreached : S member := hS.member hs (List.mem_append_right _ List.mem_cons_self)
    -- the member that decided accepts what it made, and no earlier one begins to
    have hmember' : Conforms ds true member (some rebuilt) := (hprojects.conforms hmember).tolerate
    have hbefore' : ∀ other ∈ before, ¬Conforms ds true other (some rebuilt) := by
      intro other hother hbegins
      exact hbefore other hother
        (hdiscerning before member after hs other hother value rebuilt hmember hprojects hbegins)
    exact .union rfl hbefore' hmember' (ih hmember hreached)
  | reference hd _ ih =>
    exact .reference hd (ih ((Conforms.reference_iff hd).1 hc) (hS.target hs hd))

/-! ## Objects that demand every property -/

/-- The objects among the shapes `S` do without none of their properties. -/
def Demanding (ds : Definitions) (S : Shape → Prop) : Prop :=
  ∀ properties, S (.object properties) → ∀ p ∈ properties,
    p.required = true ∧ ¬Conforms ds true p.shape none

/-- Only a scalar is trimmed to a scalar, and only to itself. -/
theorem Json.TrimsTo.eq_of_isScalar (h : value.TrimsTo rebuilt) (hs : rebuilt.isScalar = true) :
    value = rebuilt := by
  cases h with
  | array | object => cases hs
  | _ => rfl

/-- Shapes whose objects demand every property accept a value if they accept what it is trimmed
to. -/
theorem Conforms.untrimmed (hS : ds.Closed S) (hdemanding : Demanding ds S) {x : Option Json}
    (h : Conforms ds true shape x) (hs : S shape) (hx : x = some rebuilt)
    (htrims : value.TrimsTo rebuilt) : Conforms ds true shape (some value) := by
  induction h generalizing value rebuilt with
  | any => exact .any _
  | undefined => cases hx
  | literal h =>
    cases hx
    rw [htrims.eq_of_isScalar (Literal.isScalar_of_accepts h)]
    exact .literal h
  | boolean b =>
    cases hx
    rw [htrims.eq_of_isScalar rfl]
    exact .boolean b
  | null =>
    cases hx
    rw [htrims.eq_of_isScalar rfl]
    exact .null
  | number n =>
    cases hx
    rw [htrims.eq_of_isScalar rfl]
    exact .number n
  | string s =>
    cases hx
    rw [htrims.eq_of_isScalar rfl]
    exact .string s
  | array _ ih =>
    cases hx
    cases htrims with
    | @array items _ hlength hpairs =>
      refine .array fun item hitem => ?_
      obtain ⟨new, hnew, hpair⟩ := exists_of_mem_left hlength hitem
      exact ih new hnew (hS.element hs) rfl (hpairs (item, new) hpair)
  | @object properties left _ _ hmissing ihpresent _ =>
    cases hx
    cases htrims with
    | @object entries _ hkeys hentries =>
      refine .object (.inl rfl) (fun p hp old hold => ?_) fun p hp hrequired hnone => ?_
      · obtain ⟨hrequired, habsent⟩ := hdemanding properties hs p hp
        cases hnew : Json.find? p.name left with
        | none => exact absurd (hmissing p hp hrequired hnew) habsent
        | some new =>
          exact ihpresent p hp new hnew (hS.property hs hp) rfl (hentries p.name old new hold hnew)
      · have hnone' : Json.find? p.name left = none := by
          rw [Json.find?_eq_none_iff] at hnone ⊢
          exact fun hkey => hnone (hkeys p.name hkey)
        exact hmissing p hp hrequired hnone'
  | union hm _ ih => exact .union hm (ih (hS.member hs hm) hx htrims)
  | reference hd _ ih => exact .reference hd (ih (hS.target hs hd) hx htrims)

/-- Such shapes discern the values of all others. -/
theorem discerns_of_demanding (h : Demanding ds (ds.Reaches other)) : Discerns ds other member :=
  fun _ _ _ hprojects hbegins =>
    hbegins.untrimmed (ds.closed_reaches other) h (ds.reaches_self other) rfl hprojects.trimsTo

/-! ## Objects told apart by a literal -/

/-- Objects that require one key with different literals discern each other's values. -/
theorem discerns_of_tag {properties properties' : List Property} {key : String}
    {tag tag' : Literal} (htag : ⟨key, .literal tag, true⟩ ∈ properties)
    (htag' : ⟨key, .literal tag', true⟩ ∈ properties')
    (happart : ∀ v, tag'.accepts v = true → tag.accepts v = false) :
    Discerns ds (.object properties) (.object properties') := by
  intro value rebuilt hmember hprojects hbegins
  obtain ⟨entries, hvalue, -, hproperties'⟩ := Conforms.object_iff.1 hmember
  obtain ⟨left, hrebuilt, -, hproperties⟩ := Conforms.object_iff.1 hbegins
  cases hvalue
  cases hrebuilt
  have hliteral' := hproperties' _ htag' rfl
  have hliteral := hproperties _ htag rfl
  dsimp only at hliteral hliteral'
  cases hold : Json.find? key entries with
  | none =>
    rw [hold] at hliteral'
    cases hliteral'
  | some old =>
    cases hnew : Json.find? key left with
    | none =>
      rw [hnew] at hliteral
      cases hliteral
    | some new =>
      rw [hold] at hliteral'
      rw [hnew] at hliteral
      cases hprojects with
      | leaf hleaf => cases hleaf
      | object _ _ hvalues =>
        -- the literal is projected to itself, so one value would match both
        have hsame : Projects ds (.literal tag') old new := hvalues _ htag' old new hold hnew
        cases hsame
        cases hliteral' with
        | literal haccepts' =>
          cases hliteral with
          | literal haccepts =>
            rw [happart _ haccepts'] at haccepts
            cases haccepts

/-! ## Creating again -/

/-- What has been created is created again, possibly with more entries left out. It stays as it is
exactly if it is its own projection, and this is so for all values if in every union that is reached
the members discern the values of later members. -/
theorem Binding.create_again {r : Registry} (hr : Registry.compile ds = .ok r) {name : String}
    (hd : ds.get? name = some shape) :
    ∃ b, r.get? name = some b ∧ ∀ value rebuilt, b.create value = .ok rebuilt →
      (∃ again, b.create rebuilt = .ok again ∧ rebuilt.TrimsTo again) ∧
      (b.create rebuilt = .ok rebuilt ↔ Projects ds shape rebuilt rebuilt) ∧
      (Discerning ds (ds.Reaches shape) → b.create rebuilt = .ok rebuilt) := by
  obtain ⟨hw, rfl⟩ := Registry.compile_eq_ok hr
  have hslot := (Definitions.get?_eq_some_iff hw.distinct).1 hd
  refine ⟨_, Definitions.get?_link hw.distinct hslot, fun value rebuilt hcreate => ?_⟩
  obtain ⟨hc, hprojects⟩ := (hw.create_eq_ok_iff hslot).1 hcreate
  have hagain : Conforms ds true shape (some rebuilt) := (hprojects.conforms hc).tolerate
  have hiff : (ds.binding (ds.names.idxOf name) ⟨name, shape⟩).create rebuilt = .ok rebuilt ↔
      Projects ds shape rebuilt rebuilt := by
    rw [hw.create_eq_ok_iff hslot]
    exact and_iff_right hagain
  refine ⟨?_, hiff, fun hdiscerning => ?_⟩
  · obtain ⟨again, hmade⟩ := (hw.exists_create_iff hslot).2 ((hw.validate_decides hslot _).2 hagain)
    exact ⟨again, hmade, ((hw.create_eq_ok_iff hslot).1 hmade).2.trimsTo⟩
  · have hself := hprojects.repeated (ds.closed_reaches shape) hdiscerning hc (ds.reaches_self shape)
    exact hiff.2 hself

/-- Circles, which may have a label. -/
def Shape.circle : Shape :=
  .object [⟨"kind", .literal (.string "circle"), true⟩, ⟨"label", .string, false⟩]

/-- Squares. -/
def Shape.square : Shape :=
  .object [⟨"kind", .literal (.string "square"), true⟩, ⟨"side", .number, true⟩]

/-- Figures are named, or they are circles or squares. -/
def Definition.figure : Definition := ⟨"Figure", .union [.string, .circle, .square]⟩

/-- Definitions in which members discern the values of later members. -/
def Definitions.figures : Definitions := ⟨none, [.figure]⟩

/-- What `Figure` reaches. -/
def Shape.figureParts : List Shape :=
  [Definition.figure.shape, .string, .circle, .square, .literal (.string "circle"),
    .literal (.string "square"), .number]

theorem Definitions.closed_figureParts : Definitions.figures.Closed (· ∈ Shape.figureParts) :=
  closed_of_next (by
    simp [Shape.figureParts, Definition.figure, Shape.circle, Shape.square, next])

/-- A name has no objects, and circles and squares are told apart by their kind. -/
theorem discerning_figures :
    Discerning .figures (Definitions.figures.Reaches Definition.figure.shape) := by
  have hstring : ∀ member, Discerns .figures .string member := by
    intro member
    refine discerns_of_demanding fun properties hreached => ?_
    have hS : Definitions.figures.Closed (· = .string) :=
      ⟨nofun, nofun, nofun, nofun⟩
    cases hS.of_reaches rfl hreached
  have hcircle : Discerns .figures .circle .square := by
    refine discerns_of_tag List.mem_cons_self List.mem_cons_self fun v hv => ?_
    cases v with
    | string s =>
      have hs : "square" = s := by simpa [Literal.accepts] using hv
      subst hs
      rfl
    | _ => rfl
  intro before member after hreached other hother
  have hmem := Definitions.closed_figureParts.of_reaches List.mem_cons_self hreached
  simp only [Shape.figureParts, Definition.figure, Shape.circle, Shape.square, List.mem_cons,
    Shape.union.injEq, reduceCtorEq, List.not_mem_nil, or_false] at hmem
  -- there may be no member, one or two before the one in question, but not three
  rcases before with - | ⟨first, - | ⟨second, - | ⟨third, before⟩⟩⟩
  · exact absurd hother List.not_mem_nil
  · cases hmem
    rw [List.mem_singleton.1 hother]
    exact hstring _
  · cases hmem
    rcases List.mem_cons.1 hother with rfl | hother
    · exact hstring _
    · rw [List.mem_singleton.1 hother]
      exact hcircle
  · simp at hmem

/-- A square with a label, which squares do not declare. -/
def Json.labelledSquare : Json :=
  .object [("kind", .string "square"), ("label", .null), ("side", .number .zero)]

/-- The same square without its label. -/
def Json.plainSquare : Json := .object [("kind", .string "square"), ("side", .number .zero)]

/-- A square stays as it has been created. -/
theorem Binding.square_created_again :
    Registry.compile .figures = .ok Definitions.figures.link ∧
      Definitions.figures.get? "Figure" = some Definition.figure.shape ∧
      Discerning .figures (Definitions.figures.Reaches Definition.figure.shape) ∧
      (Definitions.figures.binding 0 .figure).create .labelledSquare = .ok .plainSquare ∧
      (Definitions.figures.binding 0 .figure).create .plainSquare = .ok .plainSquare := by
  have hr : Registry.compile .figures = .ok Definitions.figures.link := rfl
  have hd : Definitions.figures.get? "Figure" = some Definition.figure.shape := rfl
  obtain ⟨b, hb, hagain⟩ := Binding.create_again hr hd
  have hbinding : Definitions.figures.link.get? "Figure" =
      some (Definitions.figures.binding 0 .figure) := rfl
  rw [hbinding] at hb
  cases hb
  have hcreate : (Definitions.figures.binding 0 .figure).create .labelledSquare =
      .ok .plainSquare := rfl
  obtain ⟨-, -, hsame⟩ := hagain _ _ hcreate
  exact ⟨hr, hd, discerning_figures, hcreate, hsame discerning_figures⟩

/-- Counts may be left out, labels may not. -/
def Definition.reading : Definition :=
  ⟨"Reading", .union [.object [⟨"count", .number, false⟩], .object [⟨"label", .string, true⟩]]⟩

/-- Definitions in which a member is misled: without its count a label is taken for a reading that
has none. -/
def Definitions.readings : Definitions := ⟨none, [.reading]⟩

/-- The label is kept the first time and left out the second time. -/
theorem Binding.reading_created_again :
    Registry.compile .readings = .ok Definitions.readings.link ∧
      Definitions.readings.link.get? "Reading" = some (Definitions.readings.binding 0 .reading) ∧
      (Definitions.readings.binding 0 .reading).create
        (.object [("count", .string "none"), ("label", .string "x")]) =
        .ok (.object [("label", .string "x")]) ∧
      (Definitions.readings.binding 0 .reading).create (.object [("label", .string "x")]) =
        .ok (.object []) ∧
      (Definitions.readings.binding 0 .reading).create (.object [("label", .string "x")]) ≠
        .ok (.object [("label", .string "x")]) := by
  have hagain : (Definitions.readings.binding 0 .reading).create
      (.object [("label", .string "x")]) = .ok (.object []) := rfl
  refine ⟨rfl, rfl, rfl, hagain, ?_⟩
  rw [hagain]
  nofun

end JsonShape
