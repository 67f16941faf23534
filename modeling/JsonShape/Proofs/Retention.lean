import JsonShape.Proofs.Repetition

/-!
# Proofs: what is retained

Creation leaves entries out so that the result passes the strict check. It leaves out no more than
that takes: among the values that a value can be trimmed to, the created one is the largest that
passes, provided that in every union only the last member is more than a leaf. A leaf then cannot
mislead creation, since it sees a value and what the value is trimmed to alike.

Trimming is an order on canonical values. So a value that passes the strict check itself is the
largest of all, and is created as it is.
-/

namespace JsonShape

variable {ds : Definitions} {S : Shape → Prop} {shape : Shape} {value rebuilt kept other : Json}

/-! ## Trimming is an order -/

/-- Canonical values that are trimmed to each other are the same. -/
theorem Json.TrimsTo.antisymm (h : value.TrimsTo other) (h' : other.TrimsTo value)
    (hc : value.Canonical) (hc' : other.Canonical) : value = other := by
  induction h with
  | null | bool | number | string => rfl
  | @array items left hlength _ ih =>
    cases h' with
    | array _ hpairs' =>
      refine congrArg Json.array (eq_of_zip hlength fun pair hpair => ?_)
      have hback := hpairs' pair.swap (mem_zip_swap hpair)
      obtain ⟨hold, hnew⟩ := List.of_mem_zip hpair
      exact ih pair hpair hback (Json.canonical_array.1 hc _ hold)
        (Json.canonical_array.1 hc' _ hnew)
  | @object entries left hkeys _ ih =>
    cases h' with
    | object hkeys' hentries' =>
      obtain ⟨hsorted, hvalues⟩ := Json.canonical_object.1 hc
      obtain ⟨hsorted', hvalues'⟩ := Json.canonical_object.1 hc'
      refine congrArg Json.object (Json.eq_of_find?_eq hsorted hsorted' fun key => ?_)
      cases hold : Json.find? key entries with
      | none =>
        have habsent := Json.find?_eq_none_iff.1 hold
        rw [Json.find?_eq_none_iff.2 fun hkey => habsent (hkeys key hkey)]
      | some old =>
        obtain ⟨new, hnew⟩ := Json.mem_keys_iff.1 (hkeys' key (Json.mem_keys_iff.2 ⟨old, hold⟩))
        have heq : old = new := ih key old new hold hnew (hentries' key new old hnew hold)
          (hvalues _ (Json.mem_of_find? hold)) (hvalues' _ (Json.mem_of_find? hnew))
        rw [hnew, heq]

/-- The projection of a canonical value is canonical. -/
theorem Projects.canonical (h : Projects ds shape value rebuilt) (hc : value.Canonical) :
    rebuilt.Canonical := by
  induction h with
  | leaf => exact hc
  | @array element items rebuilt hlength _ ih =>
    refine Json.canonical_array.2 fun new hnew => ?_
    obtain ⟨old, hold, hpair⟩ := exists_of_mem_right hlength hnew
    exact ih (old, new) hpair (Json.canonical_array.1 hc old hold)
  | @object properties entries rebuilt hsorted hkeys _ ih =>
    obtain ⟨-, hvalues⟩ := Json.canonical_object.1 hc
    refine Json.canonical_object.2 ⟨hsorted, fun entry hentry => ?_⟩
    have hnew : Json.find? entry.1 rebuilt = some entry.2 := Json.find?_of_mem hsorted hentry
    obtain ⟨p, hp, hname, old, hold⟩ := exists_of_find?_eq_some hkeys hnew
    rw [← hname] at hnew hold
    exact ih p hp old entry.2 hold hnew (hvalues _ (Json.mem_of_find? hold))
  | union _ _ _ _ ih => exact ih hc
  | reference _ _ ih => exact ih hc

/-! ## Leaves before everything else -/

/-- In every union among the shapes `S` only the last member may be more than a leaf. -/
def LeavesFirst (S : Shape → Prop) : Prop :=
  ∀ before member after, S (.union (before ++ member :: after)) → after ≠ [] →
    member.isLeaf = true

/-- A leaf sees a value and what the value is trimmed to alike. -/
theorem Conforms.untrimmed_leaf {lenient : Bool} (h : Conforms ds lenient shape (some kept))
    (hleaf : shape.isLeaf = true) (htrims : value.TrimsTo kept) :
    Conforms ds true shape (some value) := by
  by_cases hany : shape = .any
  · rw [hany]
    exact .any _
  · rw [htrims.eq_of_isScalar (h.isScalar hleaf hany)]
    exact h.of_isLeaf hleaf true

/-- A leaf keeps everything. -/
theorem Projects.eq_of_isLeaf (h : Projects ds shape value rebuilt) (hleaf : shape.isLeaf = true) :
    rebuilt = value := by
  cases h with
  | leaf => rfl
  | _ => cases hleaf

/-- Of what a value can be trimmed to so that it passes the strict check, the projection is the
largest. -/
theorem Projects.trimsTo_of_strict (hS : ds.Closed S) (hleaves : LeavesFirst S)
    (h : Projects ds shape value rebuilt) (hs : S shape)
    (hkept : Conforms ds false shape (some kept)) (htrims : value.TrimsTo kept) :
    rebuilt.TrimsTo kept := by
  induction h generalizing kept with
  | leaf => exact htrims
  | @array element items rebuilt hlength _ ih =>
    cases htrims with
    | @array _ left hlength' hpairs =>
      obtain ⟨_, ⟨⟩, hitems⟩ := Conforms.array_iff.1 hkept
      refine .array (hlength.symm.trans hlength') fun pair hpair => ?_
      -- the pair of a rebuilt and a kept item stands beside the item both are made of
      obtain ⟨old, hold, hkeep⟩ := exists_of_mem_zip hlength hpair
      exact ih (old, pair.1) hold (hS.element hs) (hitems _ (List.of_mem_zip hpair).2)
        (hpairs (old, pair.2) hkeep)
  | @object properties entries rebuilt _ hkeys _ ih =>
    cases htrims with
    | @object _ left hpresent hentries =>
      obtain ⟨_, ⟨⟩, hdeclared, hproperties⟩ := Conforms.object_iff.1 hkept
      have hdeclared := hdeclared.resolve_left Bool.false_ne_true
      refine .object (fun key hkey => ?_) fun key made new hmade hnew => ?_
      · exact (hkeys key).2 ⟨hdeclared key hkey, hpresent key hkey⟩
      · obtain ⟨p, hp, rfl, old, hold⟩ := exists_of_find?_eq_some hkeys hmade
        have hchild := hproperties p hp (by simp [hnew])
        rw [hnew] at hchild
        exact ih p hp old made hold hmade (hS.property hs hp) hchild
          (hentries p.name old new hold hnew)
  | @union members before after member value rebuilt hsplit hbefore _ hprojects ih =>
    subst hsplit
    obtain ⟨chosen, hchosen, hc⟩ := Conforms.union_iff.1 hkept
    rcases List.mem_append.1 hchosen with hearlier | hchosen
    · -- a leaf that accepts what is kept would have accepted the value before
      obtain ⟨first, rest, rfl⟩ := List.append_of_mem hearlier
      have hleaf : chosen.isLeaf = true := by
        refine hleaves first chosen (rest ++ member :: after) ?_ (by simp)
        rwa [List.append_assoc] at hs
      exact absurd (hc.untrimmed_leaf hleaf htrims) (hbefore chosen hearlier)
    · rcases List.mem_cons.1 hchosen with rfl | hlater
      · exact ih (hS.member hs (List.mem_append_right _ List.mem_cons_self)) hc htrims
      · -- the member that decided is a leaf, so nothing has been left out
        have hleaf := hleaves before member after hs (List.ne_nil_of_mem hlater)
        rw [hprojects.eq_of_isLeaf hleaf]
        exact htrims
  | reference hd _ ih =>
    exact ih (hS.target hs hd) ((Conforms.reference_iff hd).1 hkept) htrims

/-! ## Creation -/

/-- The parts of definitions are closed. -/
theorem Definitions.closed_parts (ds : Definitions) :
    ds.Closed fun piece => ∃ d ∈ ds.types, piece.Part d.shape where
  element := fun ⟨d, hd, h⟩ => ⟨d, hd, h.element⟩
  property := fun ⟨d, hd, h⟩ hp => ⟨d, hd, h.property hp⟩
  member := fun ⟨d, hd, h⟩ hm => ⟨d, hd, h.member hm⟩
  target := fun _ hget => ⟨_, mem_of_get? hget, .whole _⟩

/-- Creation leaves out what the strict check does not tolerate, and nothing else, where in every
union only the last member is more than a leaf: the created value passes the strict check, and
whatever else the value can be trimmed to so that it passes is the created value with more left out.
In particular a value is created as it is exactly if it passes the strict check. -/
theorem Binding.create_largest {r : Registry} (hr : Registry.compile ds = .ok r)
    (hleaves : LeavesFirst fun piece => ∃ d ∈ ds.types, piece.Part d.shape) {name : String}
    {b : Binding} (hb : r.get? name = some b) :
    (∀ value created, b.create value = .ok created →
      b.isValid created = true ∧ value.TrimsTo created ∧
      ∀ kept, b.isValid kept = true → value.TrimsTo kept → created.TrimsTo kept) ∧
    ∀ value : Json, value.Canonical → (b.isValid value = true ↔ b.create value = .ok value) := by
  obtain ⟨hw, rfl⟩ := Registry.compile_eq_ok hr
  obtain ⟨slot, d, hd, -, rfl⟩ := Definitions.exists_of_get?_link hb
  have hs : ∃ e ∈ ds.types, Shape.Part d.shape e.shape := ⟨d, List.mem_of_getElem? hd, .whole _⟩
  have hvalid : ∀ v, (ds.binding slot d).isValid v = true ↔ Conforms ds false d.shape (some v) :=
    fun v => Binding.isValid_iff.trans (hw.validate_decides hd v)
  have hlargest : ∀ value created, (ds.binding slot d).create value = .ok created →
      (ds.binding slot d).isValid created = true ∧ value.TrimsTo created ∧
      ∀ kept, (ds.binding slot d).isValid kept = true → value.TrimsTo kept →
        created.TrimsTo kept := by
    intro value created hcreate
    obtain ⟨hc, hprojects⟩ := (hw.create_eq_ok_iff hd).1 hcreate
    refine ⟨(hvalid _).2 (hprojects.conforms hc), hprojects.trimsTo, fun kept hkept htrims => ?_⟩
    exact hprojects.trimsTo_of_strict ds.closed_parts hleaves hs ((hvalid kept).1 hkept) htrims
  refine ⟨hlargest, fun value hcanonical => ⟨fun hstrict => ?_, fun hcreate => ?_⟩⟩
  · have hlenient : Conforms ds true d.shape (some value) := ((hvalid value).1 hstrict).tolerate
    obtain ⟨created, hcreate⟩ := (hw.exists_create_iff hd).2 ((hw.validate_decides hd _).2 hlenient)
    obtain ⟨-, hdown, hup⟩ := hlargest value created hcreate
    have hback : created.TrimsTo value := hup value hstrict (.refl value)
    have hprojects := ((hw.create_eq_ok_iff hd).1 hcreate).2
    rw [hcreate, hdown.antisymm hback hcanonical (hprojects.canonical hcanonical)]
  · exact (hlargest value value hcreate).1

/-- Replies are withheld, or a text, or a text with replies to it. -/
def Definition.reply : Definition :=
  ⟨"Reply", .union [.null, .string,
    .object [⟨"text", .string, true⟩, ⟨"replies", .array (.alias "Reply"), false⟩]]⟩

/-- Definitions whose union has its leaves first. -/
def Definitions.replies : Definitions := ⟨none, [.reply]⟩

/-- What `Reply` is made of. -/
def Shape.replyParts : List Shape :=
  [Definition.reply.shape, .null, .string,
    .object [⟨"text", .string, true⟩, ⟨"replies", .array (.alias "Reply"), false⟩],
    .array (.alias "Reply"), .alias "Reply"]

theorem Definitions.closed_replyParts : Definitions.replies.Closed (· ∈ Shape.replyParts) :=
  closed_of_next (by
    simp [Shape.replyParts, Definition.reply, next, replies, get?])

theorem leavesFirst_replies :
    LeavesFirst fun piece => ∃ d ∈ Definitions.replies.types, piece.Part d.shape := by
  rintro before member after ⟨d, hd, hpart⟩ hafter
  rw [Definitions.replies, List.mem_singleton] at hd
  subst hd
  have hmem := Definitions.closed_replyParts.of_part hpart List.mem_cons_self
  simp only [Shape.replyParts, Definition.reply, List.mem_cons, Shape.union.injEq, reduceCtorEq,
    List.not_mem_nil, or_false] at hmem
  rcases before with - | ⟨first, - | ⟨second, - | ⟨third, before⟩⟩⟩
  · cases hmem
    rfl
  · cases hmem
    rfl
  · cases hmem
    exact absurd rfl hafter
  · simp at hmem

/-- A reply with undeclared keys at two depths. -/
def Json.wildReply : Json :=
  .object [("by", .string "A"), ("replies", .array [.null, .object [("at", .null),
    ("text", .string "no")]]), ("text", .string "yes")]

/-- The reply that is created of it. -/
def Json.tameReply : Json :=
  .object [("replies", .array [.null, .object [("text", .string "no")]]), ("text", .string "yes")]

/-- The created reply is trimmed to the mere text, which passes the strict check too, and is created
as it is. -/
theorem Binding.reply_created :
    Registry.compile .replies = .ok Definitions.replies.link ∧
      Definitions.replies.link.get? "Reply" = some (Definitions.replies.binding 0 .reply) ∧
      (Definitions.replies.binding 0 .reply).create .wildReply = .ok .tameReply ∧
      Json.tameReply.TrimsTo (.object [("text", .string "yes")]) ∧
      (Definitions.replies.binding 0 .reply).create .tameReply = .ok .tameReply := by
  have hr : Registry.compile .replies = .ok Definitions.replies.link := rfl
  have hb : Definitions.replies.link.get? "Reply" = some (Definitions.replies.binding 0 .reply) :=
    rfl
  obtain ⟨hlargest, hself⟩ := Binding.create_largest hr leavesFirst_replies hb
  have hcreate : (Definitions.replies.binding 0 .reply).create .wildReply = .ok .tameReply := rfl
  obtain ⟨hvalid, -, hkept⟩ := hlargest _ _ hcreate
  have htrims : Json.wildReply.TrimsTo (.object [("text", .string "yes")]) := by
    refine .object (by simp [Json.keys]) fun key old new hold hnew => ?_
    obtain ⟨rfl, rfl⟩ : "text" = key ∧ Json.string "yes" = new := by simpa [Json.find?] using hnew
    cases hold
    exact .string "yes"
  have hkeys : ["replies", "text"].Pairwise (· < ·) := by decide
  have hcanonical : Json.tameReply.Canonical :=
    ⟨hkeys, ⟨trivial, ⟨List.pairwise_singleton _ _, trivial, trivial⟩, trivial⟩, trivial, trivial⟩
  exact ⟨hr, hb, hcreate, hkept _ rfl htrims, (hself _ hcanonical).1 hvalid⟩

end JsonShape
