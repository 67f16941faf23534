import JsonShape.Catalog.Loading
import JsonShape.Proofs.Diagnosis
import JsonShape.Proofs.Encoding

/-!
# Proofs: names of catalogs

However a catalog is obtained, its names are identifiers and no two of them are the same. Every way
to obtain one ends in `Catalog.ofDefinitions`, or changes nothing but the source of a catalog; and
`ofDefinitions` lets through the definitions with such names, and no others.

An identifier is described here by ranges of characters. It has a character that is not white space,
so what compilation asks of names is less than what a catalog has.
-/

namespace JsonShape

/-! ## Identifiers -/

/-- An ASCII letter or an underscore. -/
def IdentifierStart (c : Char) : Prop := ('A' ≤ c ∧ c ≤ 'Z') ∨ ('a' ≤ c ∧ c ≤ 'z') ∨ c = '_'

/-- An ASCII letter, an underscore or a digit. -/
def IdentifierPart (c : Char) : Prop := IdentifierStart c ∨ ('0' ≤ c ∧ c ≤ '9')

instance (c : Char) : Decidable (IdentifierStart c) := inferInstanceAs (Decidable (_ ∨ _))

instance (c : Char) : Decidable (IdentifierPart c) := inferInstanceAs (Decidable (_ ∨ _))

/-- A letter or an underscore, and after it nothing but letters, underscores and digits. -/
def Identifier (name : String) : Prop :=
  ∃ first rest, name.toList = first :: rest ∧ IdentifierStart first ∧ ∀ c ∈ rest, IdentifierPart c

theorem isIdentifierStart_iff {c : Char} : isIdentifierStart c = true ↔ IdentifierStart c := by
  have hupper : c.isUpper = true ↔ 'A' ≤ c ∧ c ≤ 'Z' := decide_eq_true_iff
  have hlower : c.isLower = true ↔ 'a' ≤ c ∧ c ≤ 'z' := by
    show (decide ('a' ≤ c) && decide (c ≤ 'z')) = true ↔ _
    rw [Bool.and_eq_true, decide_eq_true_eq, decide_eq_true_eq]
  have halpha : c.isAlpha = true ↔ c.isUpper = true ∨ c.isLower = true := Bool.or_eq_true_iff
  rw [isIdentifierStart, Bool.or_eq_true, beq_iff_eq, halpha, hupper, hlower, or_assoc,
    IdentifierStart]

theorem isIdentifierPart_iff {c : Char} :
    (isIdentifierStart c || c.isDigit) = true ↔ IdentifierPart c := by
  rw [Bool.or_eq_true, isIdentifierStart_iff, IdentifierPart, Char.isDigit, Bool.and_eq_true,
    decide_eq_true_eq, decide_eq_true_eq]
  rfl

theorem isIdentifier_iff {name : String} : isIdentifier name = true ↔ Identifier name := by
  rw [isIdentifier, Identifier]
  split
  · next hnil =>
    rw [hnil]
    simp
  · next first rest hcons =>
    rw [hcons, Bool.and_eq_true, isIdentifierStart_iff, List.all_eq_true]
    simp only [isIdentifierPart_iff]
    constructor
    · exact fun h => ⟨first, rest, rfl, h⟩
    · rintro ⟨_, _, heq, h⟩
      cases heq
      exact h

/-- White space does not begin an identifier. -/
theorem IdentifierStart.not_isBlank {c : Char} (h : IdentifierStart c) :
    Text.isBlank c = false := by
  have hcodes : (65 ≤ c.toNat ∧ c.toNat ≤ 90) ∨ (97 ≤ c.toNat ∧ c.toNat ≤ 122) ∨ c.toNat = 95 := by
    rcases h with h | h | rfl
    · exact .inl h
    · exact .inr (.inl h)
    · exact .inr (.inr rfl)
  simp only [Text.isBlank, Text.blankRanges, List.any_eq_false, List.forall_mem_cons,
    Bool.and_eq_true, decide_eq_true_eq]
  refine ⟨?_, ?_, ?_, ?_, ?_, ?_, ?_, ?_, ?_, ?_, List.forall_mem_nil _⟩ <;> omega

theorem Identifier.not_allBlank {name : String} (h : Identifier name) :
    Text.allBlank name.toList = false := by
  obtain ⟨first, rest, hname, hstart, -⟩ := h
  rw [hname, Text.allBlank, List.all_cons, hstart.not_isBlank, Bool.false_and]

/-! ## The first offence -/

/-- Identifiers of which no two are the same. -/
structure DistinctIdentifiers (names : List String) : Prop where
  identifiers : ∀ name ∈ names, Identifier name
  distinct : names.Nodup

/-- What is wrong with a name that comes after the names `before`. -/
inductive Offends (before : List String) (name : String) : LoadError → Prop where
  | invalid (h : ¬Identifier name) : Offends before name (.invalidName name)
  | repeated (h : Identifier name) (hbefore : name ∈ before) :
      Offends before name (.duplicateName name)

variable {names seen before after : List String} {name : String} {e : LoadError}

theorem Offends.of_subset (h : Offends before name e) (hsub : before ⊆ seen) :
    Offends seen name e := by
  cases h with
  | invalid h => exact .invalid h
  | repeated h hbefore => exact .repeated h (hsub hbefore)

theorem firstOffence?_cons_of_offends (h : Offends seen name e) (rest : List String) :
    firstOffence? seen (name :: rest) = some e := by
  cases h with
  | invalid h =>
    have hname : isIdentifier name = false := Bool.eq_false_iff.2 (mt isIdentifier_iff.1 h)
    rw [firstOffence?, hname]
    rfl
  | repeated h hbefore =>
    rw [firstOffence?, isIdentifier_iff.2 h, if_pos hbefore]
    rfl

/-- A name that is an identifier and new is passed over. -/
theorem firstOffence?_cons (h : Identifier name) (hnew : name ∉ seen) (rest : List String) :
    firstOffence? seen (name :: rest) = firstOffence? (name :: seen) rest := by
  rw [firstOffence?, isIdentifier_iff.2 h, if_neg hnew]
  rfl

/-- A name that does not offend is an identifier and new. -/
theorem offends_or (seen : List String) (name : String) :
    (∃ e, Offends seen name e) ∨ Identifier name ∧ name ∉ seen := by
  by_cases hname : Identifier name
  · by_cases hseen : name ∈ seen
    · exact .inl ⟨_, .repeated hname hseen⟩
    · exact .inr ⟨hname, hseen⟩
  · exact .inl ⟨_, .invalid hname⟩

/-- No offence is found in new names that are distinct identifiers. -/
theorem firstOffence?_eq_none_iff : firstOffence? seen names = none ↔
    DistinctIdentifiers names ∧ ∀ name ∈ names, name ∉ seen := by
  constructor
  · intro h
    induction names generalizing seen with
    | nil => exact ⟨⟨List.forall_mem_nil _, List.nodup_nil⟩, List.forall_mem_nil _⟩
    | cons name rest ih =>
      rcases offends_or seen name with ⟨e, hoffends⟩ | ⟨hname, hnew⟩
      · rw [firstOffence?_cons_of_offends hoffends] at h
        cases h
      · rw [firstOffence?_cons hname hnew] at h
        obtain ⟨⟨hidentifiers, hdistinct⟩, hfresh⟩ := ih h
        have hnotMem : name ∉ rest := fun hmem => hfresh name hmem List.mem_cons_self
        have hrest : ∀ other ∈ rest, other ∉ seen := fun other hmem hseen =>
          hfresh other hmem (List.mem_cons_of_mem _ hseen)
        have hnames : DistinctIdentifiers (name :: rest) :=
          ⟨List.forall_mem_cons.2 ⟨hname, hidentifiers⟩, List.nodup_cons.2 ⟨hnotMem, hdistinct⟩⟩
        exact ⟨hnames, List.forall_mem_cons.2 ⟨hnew, hrest⟩⟩
  · rintro ⟨⟨hidentifiers, hdistinct⟩, hfresh⟩
    exact firstOffence?_eq_none (fun name hmem => isIdentifier_iff.2 (hidentifiers name hmem))
      hdistinct hfresh

theorem firstOffence?_nil_eq_none_iff :
    firstOffence? [] names = none ↔ DistinctIdentifiers names := by
  rw [firstOffence?_eq_none_iff]
  exact and_iff_left fun _ _ => List.not_mem_nil

/-- An offence that is found has none before it. -/
theorem exists_of_firstOffence?_eq_some (h : firstOffence? seen names = some e) :
    ∃ before name after, names = before ++ name :: after ∧ firstOffence? seen before = none ∧
      Offends (before ++ seen) name e := by
  induction names generalizing seen with
  | nil => cases h
  | cons name rest ih =>
    rcases offends_or seen name with ⟨e', hoffends⟩ | ⟨hname, hnew⟩
    · rw [firstOffence?_cons_of_offends hoffends] at h
      cases h
      exact ⟨[], name, rest, rfl, rfl, hoffends⟩
    · rw [firstOffence?_cons hname hnew] at h
      obtain ⟨before, other, after, rfl, hbefore, hoffends⟩ := ih h
      refine ⟨name :: before, other, after, rfl, ?_, hoffends.of_subset ?_⟩
      · rw [firstOffence?_cons hname hnew, hbefore]
      · exact List.perm_middle.subset

/-- An offence that has none before it is found. -/
theorem firstOffence?_of_offends (hbefore : firstOffence? seen before = none)
    (h : Offends (before ++ seen) name e) (after : List String) :
    firstOffence? seen (before ++ name :: after) = some e := by
  induction before generalizing seen with
  | nil => exact firstOffence?_cons_of_offends h after
  | cons other rest ih =>
    rcases offends_or seen other with ⟨e', hoffends⟩ | ⟨hother, hnew⟩
    · rw [firstOffence?_cons_of_offends hoffends] at hbefore
      cases hbefore
    · rw [firstOffence?_cons hother hnew] at hbefore
      rw [List.cons_append, firstOffence?_cons hother hnew]
      exact ih hbefore (h.of_subset List.perm_middle.symm.subset)

/-! ## Definitions that make a catalog -/

/-- The earliest definition whose name is no identifier or that of an earlier definition, by the
error that reports it. -/
def Definitions.FirstOffence (definitions : Definitions) (e : LoadError) : Prop :=
  ∃ before d after, definitions.types = before ++ d :: after ∧
    DistinctIdentifiers (before.map Definition.name) ∧ Offends (before.map Definition.name) d.name e

theorem Definitions.firstOffence_iff {definitions : Definitions} :
    definitions.FirstOffence e ↔ firstOffence? [] definitions.names = some e := by
  constructor
  · rintro ⟨before, d, after, htypes, hbefore, hoffends⟩
    rw [names, htypes, List.map_append, List.map_cons]
    refine firstOffence?_of_offends (firstOffence?_nil_eq_none_iff.2 hbefore) ?_ _
    rwa [List.append_nil]
  · intro h
    obtain ⟨before, name, after, hnames, hbefore, hoffends⟩ := exists_of_firstOffence?_eq_some h
    obtain ⟨first, rest, htypes, rfl, hrest⟩ := List.map_eq_append_iff.1 hnames
    obtain ⟨d, others, rfl, rfl, rfl⟩ := List.map_eq_cons_iff.1 hrest
    rw [List.append_nil] at hoffends
    exact ⟨first, d, others, htypes, firstOffence?_nil_eq_none_iff.1 hbefore, hoffends⟩

namespace Catalog

variable {definitions : Definitions} {source : Source} {c : Catalog} {files : Files} {path : String}

theorem ofDefinitions_eq_ok_iff : ofDefinitions definitions source = .ok c ↔
    DistinctIdentifiers c.names ∧ c.definitions = definitions ∧ c.source = source := by
  constructor
  · intro h
    rw [ofDefinitions] at h
    split at h
    · next hnone =>
      cases h
      exact ⟨firstOffence?_nil_eq_none_iff.1 hnone, rfl, rfl⟩
    · cases h
  · obtain ⟨definitions', source', hnone⟩ := c
    rintro ⟨-, rfl, rfl⟩
    exact ofDefinitions_eq_ok hnone source'

theorem ofDefinitions_eq_error_iff :
    ofDefinitions definitions source = .error e ↔ definitions.FirstOffence e := by
  rw [Definitions.firstOffence_iff, ofDefinitions]
  split
  · next hnone => simp [hnone]
  · next e' hsome => rw [hsome, Except.error.injEq, Option.some.injEq]

theorem exists_ofDefinitions_iff (source : Source) :
    (∃ c, ofDefinitions definitions source = .ok c ∧ c.definitions = definitions) ↔
      DistinctIdentifiers definitions.names := by
  constructor
  · rintro ⟨c, h, rfl⟩
    exact (ofDefinitions_eq_ok_iff.1 h).1
  · intro h
    exact ⟨_, ofDefinitions_eq_ok (firstOffence?_nil_eq_none_iff.2 h) source, rfl⟩

/-- What a catalog has to be to come out of merging. -/
theorem merge_eq_ok_iff {parts : List Catalog} : merge parts = .ok c ↔ parts ≠ [] ∧
    DistinctIdentifiers c.names ∧ c.definitions = joined parts ∧
      c.source = joinedSource (parts.map Catalog.source) := by
  rw [← ofDefinitions_eq_ok_iff]
  cases parts with
  | nil => simp [merge]
  | cons first rest => simp [merge]

/-- A merge of some catalogs goes through just in case their names are distinct. -/
theorem exists_merge_iff {parts : List Catalog} : (∃ c, merge parts = .ok c) ↔
    parts ≠ [] ∧ DistinctIdentifiers (joined parts).names := by
  constructor
  · rintro ⟨c, hc⟩
    obtain ⟨hsome, hdistinct, hjoined, -⟩ := merge_eq_ok_iff.1 hc
    exact ⟨hsome, hjoined ▸ hdistinct⟩
  · rintro ⟨hsome, hdistinct⟩
    obtain ⟨c, hc, -⟩ := (exists_ofDefinitions_iff (joinedSource (parts.map source))).2 hdistinct
    exact ⟨c, merge_eq_ok_iff.2 ⟨hsome, ofDefinitions_eq_ok_iff.1 hc⟩⟩

/-- What a catalog has to be to come out of a file. -/
theorem ofFile_eq_ok_iff : ofFile files path = .ok c ↔
    Definitions.ofFile files path = .ok c.definitions ∧ DistinctIdentifiers c.names ∧
      c.source = .file path := by
  rw [ofFile, bind_eq_ok_iff]
  simp only [ofDefinitions_eq_ok_iff]
  constructor
  · rintro ⟨_, hread, hdistinct, rfl, hsource⟩
    exact ⟨hread, hdistinct, hsource⟩
  · rintro ⟨hread, hdistinct, hsource⟩
    exact ⟨_, hread, hdistinct, rfl, hsource⟩

/-! ## Ways to obtain a catalog -/

/-- Catalogs that can be obtained: from definitions, from a text, from what is found at a path, out
of others by merging, or as the first of several sources that can be loaded. Each time files are
read they may have changed. -/
inductive Obtained : Catalog → Prop where
  | definitions {definitions : Definitions} {c : Catalog}
      (h : ofDefinitions definitions .inline = .ok c) : Obtained c
  | text {format : Format} {text : String} {c : Catalog} (h : ofText format text = .ok c) :
      Obtained c
  | file {files : Files} {path : String} {c : Catalog} (h : ofFile files path = .ok c) : Obtained c
  | directory {files : Files} {path : String} {c : Catalog} (h : ofDirectory files path = .ok c) :
      Obtained c
  | path {files : Files} {path : String} {c : Catalog} (h : ofPath files path = .ok c) : Obtained c
  | merged {catalogs : List Catalog} {c : Catalog} (hall : ∀ part ∈ catalogs, Obtained part)
      (h : merge catalogs = .ok c) : Obtained c
  | first {files : Files} {sources : List Source} {c : Catalog}
      (h : ofFirst files sources = .ok c) : Obtained c

theorem distinctIdentifiers_of_ofDirectory (h : ofDirectory files path = .ok c) :
    DistinctIdentifiers c.names := by
  obtain ⟨documents, -, h⟩ := exists_of_bind_eq_ok h
  obtain ⟨definitions, -, h⟩ := exists_of_bind_eq_ok h
  exact (ofDefinitions_eq_ok_iff.1 h).1

theorem distinctIdentifiers_of_ofSource? (h : ofSource? files source = some c) :
    DistinctIdentifiers c.names := by
  cases source with
  | inline => cases h
  | file path => exact (ofFile_eq_ok_iff.1 (ok_of_toOption_eq_some h)).2.1
  | directory path => exact distinctIdentifiers_of_ofDirectory (ok_of_toOption_eq_some h)
  | several sources => cases h

theorem Obtained.distinctIdentifiers (h : c.Obtained) : DistinctIdentifiers c.names := by
  cases h with
  | definitions h => exact (ofDefinitions_eq_ok_iff.1 h).1
  | text h =>
    obtain ⟨definitions, -, h⟩ := exists_of_bind_eq_ok h
    exact (ofDefinitions_eq_ok_iff.1 h).1
  | file h => exact (ofFile_eq_ok_iff.1 h).2.1
  | directory h => exact distinctIdentifiers_of_ofDirectory h
  | path h =>
    rw [ofPath] at h
    split at h
    · exact distinctIdentifiers_of_ofDirectory h
    · exact (ofFile_eq_ok_iff.1 h).2.1
  | merged hall h => exact (merge_eq_ok_iff.1 h).2.1
  | first h =>
    rw [ofFirst] at h
    split at h
    · next loaded hfind =>
      obtain ⟨source, -, hsource⟩ := List.exists_of_findSome?_eq_some hfind
      have hloaded := distinctIdentifiers_of_ofSource? hsource
      cases h
      exact hloaded
    · cases h

/-! ## What distinct identifiers are good for -/

/-- Distinct identifiers get their slots. -/
theorem assign_of_distinctIdentifiers (h : DistinctIdentifiers names) :
    Slots.empty.assign 0 names = .ok (.ofNames names) :=
  @Slots.assign_of_nodup [] names (fun name hmem => (h.identifiers name hmem).not_allBlank)
    h.distinct

theorem compile_eq_ok {r : Registry} (h : c.compile = .ok r) :
    Registry.compile c.definitions = .ok r := by
  rw [compile] at h
  split at h
  · next r' hok =>
    cases h
    exact hok
  · cases h

theorem compile_eq_error {e : CompileError} (h : c.compile = .error (.compile e)) :
    Registry.compile c.definitions = .error e := by
  rw [compile] at h
  split at h
  · cases h
  · next e' hfail =>
    cases h
    exact hfail

/-- An error of compilation beside distinct identifiers is not about names. -/
theorem ne_of_compile_eq_error {e : CompileError} (hnames : DistinctIdentifiers c.names)
    (h : c.compile = .error (.compile e)) : e ≠ .emptyName ∧ ∀ name, e ≠ .duplicateName name := by
  have hok : Slots.empty.assign 0 c.definitions.names = .ok (.ofNames c.definitions.names) :=
    assign_of_distinctIdentifiers hnames
  rcases Registry.compile_eq_error (compile_eq_error h) with
    hfail | ⟨-, ⟨d, -, hflaw⟩ | ⟨-, circle, -, rfl⟩⟩
  · rw [hok] at hfail
    cases hfail
  · cases hflaw <;> exact ⟨nofun, nofun⟩
  · exact ⟨nofun, nofun⟩

end Catalog

/-- The definitions of a name are the one that is looked up, if there is one. -/
theorem Definitions.filter_name_eq {definitions : Definitions} (h : definitions.names.Nodup)
    (name : String) : (definitions.types.filter fun d => d.name == name) =
      (definitions.get? name).toList.map (Definition.mk name) := by
  have hatMostOne : (definitions.types.filter fun d => d.name == name).length ≤ 1 := by
    have hcount := List.nodup_iff_count_le_one.1 h name
    rw [names, List.count, List.countP_map] at hcount
    rwa [← List.countP_eq_length_filter]
  rw [get?, ← List.head?_filter]
  cases hfilter : definitions.types.filter fun d => d.name == name with
  | nil => rfl
  | cons d rest =>
    have hmem : d ∈ definitions.types.filter fun d => d.name == name := hfilter ▸ List.mem_cons_self
    have hname : d.name = name := beq_iff_eq.1 (List.mem_filter.1 hmem).2
    rw [hfilter, List.length_cons, Nat.le_iff_lt_add_one, Nat.add_lt_add_iff_right,
      Nat.lt_one_iff, List.length_eq_zero_iff] at hatMostOne
    rw [hatMostOne, ← hname]
    rfl

/-- A catalog, however it is obtained, has distinct identifiers for names. So compilation has no
fault to find with the names, and what is found under a name is the only definition of it.
Definitions make a catalog just in case they have such names; otherwise the earliest offence is
reported. -/
theorem Catalog.named_apart :
    (∀ c : Catalog, c.Obtained → DistinctIdentifiers c.names ∧
      c.compile ≠ .error (.compile .emptyName) ∧
      (∀ name, c.compile ≠ .error (.compile (.duplicateName name))) ∧
      ∀ name, (c.definitions.types.filter fun d => d.name == name) =
        (c.get? name).toList.map (Definition.mk name)) ∧
    ∀ definitions : Definitions,
      ((∃ c, ofDefinitions definitions .inline = .ok c ∧ c.definitions = definitions) ↔
        DistinctIdentifiers definitions.names) ∧
      ∀ e, ofDefinitions definitions .inline = .error e ↔ definitions.FirstOffence e := by
  constructor
  · intro c hobtained
    have hnames := hobtained.distinctIdentifiers
    refine ⟨hnames, fun h => ?_, fun name h => ?_, Definitions.filter_name_eq hnames.distinct⟩
    · exact (ne_of_compile_eq_error hnames h).1 rfl
    · exact (ne_of_compile_eq_error hnames h).2 name rfl
  · intro definitions
    exact ⟨exists_ofDefinitions_iff .inline, fun e => ofDefinitions_eq_error_iff⟩

/-- A directory in which two documents lie beside a note. -/
def Files.shelf : Files := fun path =>
  let found := [("types", Stored.directory ["lid.json", "notes.txt", "cup.JSON"]),
    ("types/cup.JSON", .file "[null,[[\"Cup\",\x7b\"kind\":\"null\"\x7d]]]".toUTF8.toList),
    ("types/lid.json", .file "[null,[[\"_2\",[\"alias\",\"Cup\"]]]]".toUTF8.toList),
    ("types/notes.txt", .file "wash up".toUTF8.toList)].lookup path
  found.elim (.error .notFound) .ok

/-- The second source of a chain, where the first is missing, merged with another document. -/
theorem Catalog.shelf_named_apart : ∃ c : Catalog, c.Obtained ∧ c.names = ["Cup", "_2"] ∧
    DistinctIdentifiers c.names ∧ c.compile ≠ .error (.compile .emptyName) := by
  have hnames : (do
      let cup ← ofFirst .shelf [.file "types.json", .file "types/cup.JSON"]
      let lid ← ofFile .shelf "types/lid.json"
      merge [cup, lid]).toOption.map names = some ["Cup", "_2"] := by decide +kernel
  obtain ⟨c, hc, hnames⟩ := Option.map_eq_some_iff.1 hnames
  obtain ⟨cup, hcup, hc⟩ := exists_of_bind_eq_ok (ok_of_toOption_eq_some hc)
  obtain ⟨lid, hlid, hmerge⟩ := exists_of_bind_eq_ok hc
  have hparts : ∀ part ∈ [cup, lid], part.Obtained :=
    List.forall_mem_cons.2 ⟨.first hcup, List.forall_mem_singleton.2 (.file hlid)⟩
  have hobtained : c.Obtained := .merged hparts hmerge
  obtain ⟨hdistinct, hcompile, -⟩ := named_apart.1 c hobtained
  exact ⟨c, hobtained, hnames, hdistinct, hcompile⟩

end JsonShape
