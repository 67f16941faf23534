import JsonShape.Proofs.Lexemes
import JsonShape.Proofs.Lines
import JsonShape.Proofs.Naming
import JsonShape.Proofs.Publication

/-!
# Proofs: the frame of an artifact

What is written for a definition stands on one line: in JSON text line feeds are escaped, a
declaration quotes its keys and literals as JSON does, and all other names in it are identifiers. So
the text of an artifact is made of lines, and falls apart into them again.

Those that are neither blank nor comments are the two lines of each entry. They end in a semicolon,
so tidying does not change them. A header falls apart before each part becomes a comment.
-/

namespace JsonShape

/-! ## JSON text without line feeds -/

namespace Decimal

theorem newline_notMem_digitsOf (n : Nat) : '\n' ∉ digitsOf n := fun h =>
  absurd (Json.Lexical.isDigit_of_mem_digitsOf '\n' h) (by decide)

theorem newline_notMem_positional {digits : List Char} (h : '\n' ∉ digits) (exponent : Int) :
    '\n' ∉ positional digits exponent := by
  rw [positional]
  split
  · simp [h]
  · dsimp only
    split
    · have htake (n : Nat) : '\n' ∉ digits.take n := fun hmem => h (List.mem_of_mem_take hmem)
      have hdrop (n : Nat) : '\n' ∉ digits.drop n := fun hmem => h (List.mem_of_mem_drop hmem)
      simp [htake, hdrop]
    · simp [h]

theorem newline_notMem_scientific {digits : List Char} (h : '\n' ∉ digits) (exponent : Int) :
    '\n' ∉ scientific digits exponent := by
  have hsign : '\n' ≠ if exponent < 0 then '-' else '+' := by split <;> decide
  have hexponent := newline_notMem_digitsOf exponent.natAbs
  unfold scientific
  rcases digits with _ | ⟨first, _ | ⟨second, rest⟩⟩
  · simp [hsign, hexponent]
  · simp_all
  · simp_all

theorem Layout.newline_notMem_write (layout : Layout) (x : Double) : '\n' ∉ layout.write x := by
  have hdigits := newline_notMem_digitsOf (shortest x.rank).digits
  unfold write
  dsimp only
  split_ifs
  · exact List.not_mem_cons_of_ne_of_not_mem (by decide) (newline_notMem_positional hdigits _)
  · exact List.not_mem_cons_of_ne_of_not_mem (by decide) (newline_notMem_scientific hdigits _)
  · exact newline_notMem_positional hdigits _
  · exact newline_notMem_scientific hdigits _

end Decimal

theorem Number.newline_notMem_write (n : Number) : '\n' ∉ n.write := by
  cases n with
  | natural n => exact Decimal.newline_notMem_digitsOf n
  | negative below =>
    exact List.not_mem_cons_of_ne_of_not_mem (by decide) (Decimal.newline_notMem_digitsOf _)
  | double x => exact Decimal.Layout.json.newline_notMem_write x

namespace Json

theorem newline_ne_hexDigit {n : Nat} (h : n < 16) : '\n' ≠ hexDigit n := by
  have hall : ∀ d : Fin 16, '\n' ≠ hexDigit d := by decide
  exact hall ⟨n, h⟩

theorem newline_notMem_escape (c : Char) : '\n' ∉ escape c := by
  have hhigh (h : c.toNat < 32) : '\n' ≠ hexDigit (c.toNat / 16) := newline_ne_hexDigit (by omega)
  have hlow : '\n' ≠ hexDigit (c.toNat % 16) := newline_ne_hexDigit (Nat.mod_lt _ (by decide))
  rw [escape]
  -- a character stands for itself only after it has been found to be no line feed
  split_ifs <;> simp_all [eq_comm]

theorem newline_notMem_quote (s : String) : '\n' ∉ quote s := by
  simp [quote, newline_notMem_escape]

theorem newline_notMem_compactMoreItems {items : List Json}
    (h : ∀ item ∈ items, '\n' ∉ item.compactChars) : '\n' ∉ compactMoreItems items := by
  induction items with
  | nil => decide
  | cons item rest ih =>
    obtain ⟨hitem, hrest⟩ := List.forall_mem_cons.1 h
    simp [compactMoreItems, hitem, ih hrest]

theorem newline_notMem_compactItems {items : List Json}
    (h : ∀ item ∈ items, '\n' ∉ item.compactChars) : '\n' ∉ compactItems items := by
  cases items with
  | nil => decide
  | cons item rest =>
    obtain ⟨hitem, hrest⟩ := List.forall_mem_cons.1 h
    simp [compactItems, hitem, newline_notMem_compactMoreItems hrest]

theorem newline_notMem_compactMoreEntries {entries : List (String × Json)}
    (h : ∀ entry ∈ entries, '\n' ∉ entry.2.compactChars) :
    '\n' ∉ compactMoreEntries entries := by
  induction entries with
  | nil => decide
  | cons entry rest ih =>
    obtain ⟨hvalue, hrest⟩ := List.forall_mem_cons.1 h
    simp [compactMoreEntries, newline_notMem_quote, hvalue, ih hrest]

theorem newline_notMem_compactEntries {entries : List (String × Json)}
    (h : ∀ entry ∈ entries, '\n' ∉ entry.2.compactChars) : '\n' ∉ compactEntries entries := by
  cases entries with
  | nil => decide
  | cons entry rest =>
    obtain ⟨hvalue, hrest⟩ := List.forall_mem_cons.1 h
    simp [compactEntries, newline_notMem_quote, hvalue, newline_notMem_compactMoreEntries hrest]

/-- Compact text stands on one line. -/
theorem newline_notMem_compactChars (value : Json) : '\n' ∉ value.compactChars := by
  induction value with
  | null => decide
  | bool b => cases b <;> decide
  | number n => exact n.newline_notMem_write
  | string s => exact newline_notMem_quote s
  | array items ih =>
    exact List.not_mem_cons_of_ne_of_not_mem (by decide) (newline_notMem_compactItems ih)
  | object entries ih =>
    exact List.not_mem_cons_of_ne_of_not_mem (by decide) (newline_notMem_compactEntries ih)

end Json

/-! ## Declarations without line feeds -/

namespace Declaration

theorem newline_notMem_keyText (name : String) : '\n' ∉ keyText name := by
  rw [keyText]
  split
  · next hplain =>
    intro hmem
    cases hname : name.toList with
    | nil =>
      rw [hname] at hmem
      cases hmem
    | cons first rest =>
      rw [hname, isPlainKey, Bool.and_eq_true, List.all_eq_true] at hplain
      rw [hname] at hmem
      rcases List.mem_cons.1 hmem with rfl | hmem
      · exact absurd hplain.1 (by decide)
      · exact absurd (hplain.2 _ hmem) (by decide)
  · exact Json.newline_notMem_quote name

-- Lean can find these equations by itself, but not fast.
section Equations

variable {name : String} {optional : Bool} {declaration : Declaration} {field : Field}
  {fields : List Field} {declarations : List Declaration}

theorem text_array :
    (Declaration.array declaration).text = "Array<".toList ++ declaration.text ++ ['>'] :=
  rfl

theorem fieldText_mk : fieldText ⟨name, optional, declaration⟩ =
    keyText name ++ (if optional then ['?'] else []) ++ ':' :: ' ' :: declaration.text :=
  rfl

theorem text_record_cons : (Declaration.record (field :: fields)).text =
    '{' :: ' ' :: fieldText field ++ moreFields fields :=
  rfl

theorem moreFields_cons :
    moreFields (field :: fields) = ';' :: ' ' :: fieldText field ++ moreFields fields :=
  rfl

theorem text_union_cons : (Declaration.union (declaration :: declarations)).text =
    '(' :: declaration.text ++ ')' :: moreMembers declarations :=
  rfl

theorem moreMembers_cons : moreMembers (declaration :: declarations) =
    ' ' :: '|' :: ' ' :: '(' :: declaration.text ++ ')' :: moreMembers declarations :=
  rfl

end Equations

theorem newline_notMem_fieldText {declaration : Declaration} (h : '\n' ∉ declaration.text)
    (name : String) (optional : Bool) : '\n' ∉ fieldText ⟨name, optional, declaration⟩ := by
  simp [fieldText_mk, newline_notMem_keyText, h]

theorem newline_notMem_moreFields {properties : List Property}
    (h : ∀ p ∈ properties, '\n' ∉ (ofShape p.shape).text) :
    '\n' ∉ moreFields (ofProperties properties) := by
  induction properties with
  | nil => decide
  | cons p rest ih =>
    obtain ⟨hp, hrest⟩ := List.forall_mem_cons.1 h
    obtain ⟨name, shape, required⟩ := p
    have hfield := newline_notMem_fieldText hp name (!required)
    simp [ofProperties, moreFields_cons, hfield, ih hrest]

theorem newline_notMem_record {properties : List Property}
    (h : ∀ p ∈ properties, '\n' ∉ (ofShape p.shape).text) :
    '\n' ∉ (Declaration.record (ofProperties properties)).text := by
  cases properties with
  | nil => decide
  | cons p rest =>
    obtain ⟨hp, hrest⟩ := List.forall_mem_cons.1 h
    obtain ⟨name, shape, required⟩ := p
    have hfield := newline_notMem_fieldText hp name (!required)
    simp [ofProperties, text_record_cons, hfield, newline_notMem_moreFields hrest]

theorem newline_notMem_moreMembers {members : List Shape}
    (h : ∀ member ∈ members, '\n' ∉ (ofShape member).text) :
    '\n' ∉ moreMembers (ofShapes members) := by
  induction members with
  | nil => decide
  | cons member rest ih =>
    obtain ⟨hmember, hrest⟩ := List.forall_mem_cons.1 h
    simp [ofShapes, moreMembers_cons, hmember, ih hrest]

theorem newline_notMem_union {members : List Shape}
    (h : ∀ member ∈ members, '\n' ∉ (ofShape member).text) :
    '\n' ∉ (Declaration.union (ofShapes members)).text := by
  cases members with
  | nil => decide
  | cons member rest =>
    obtain ⟨hmember, hrest⟩ := List.forall_mem_cons.1 h
    simp [ofShapes, text_union_cons, hmember, newline_notMem_moreMembers hrest]

/-- A declaration stands on one line, if the names it may refer to do. -/
theorem newline_notMem_text {names : List String} (hnames : ∀ name ∈ names, '\n' ∉ name.toList)
    {shape : Shape} (hw : shape.WellFormed names) : '\n' ∉ (ofShape shape).text := by
  induction hw with
  | reference h => exact hnames _ h
  | literal value => exact Json.newline_notMem_compactChars _
  | array _ ih =>
    rw [ofShape, text_array]
    exact List.not_mem_append (List.not_mem_append (by decide) ih) (by decide)
  | object _ _ ih => exact newline_notMem_record ih
  | union _ ih => exact newline_notMem_union ih
  | any | boolean | null | number | string | undefined => decide

end Declaration

theorem Identifier.newline_notMem {name : String} (h : Identifier name) : '\n' ∉ name.toList := by
  obtain ⟨first, rest, hname, hstart, hrest⟩ := h
  rw [hname]
  intro hmem
  rcases List.mem_cons.1 hmem with rfl | hmem
  · exact absurd hstart (by decide)
  · exact absurd (hrest _ hmem) (by decide)

/-! ## The lines of an artifact -/

/-- The line for the type of an entry. -/
def ArtifactEntry.typeLine (entry : ArtifactEntry) : List Char :=
  "type ".toList ++ entry.name.toList ++ " = ".toList ++ entry.declaration.toList ++ [';']

/-- The line for the schema of an entry. -/
def ArtifactEntry.schemaLine (entry : ArtifactEntry) : List Char :=
  "schema ".toList ++ entry.name.toList ++ " = ".toList ++ entry.schema.toJson.compactChars ++ [';']

namespace Artifact

/-- A comment without its line feed. -/
def commentLine (line : List Char) : List Char := '/' :: '/' :: ' ' :: line

/-- What the comments for a fact say, if it is known. -/
def factLines (label : String) (fact : Option String) : List (List Char) :=
  fact.toList.map fun known => label.toList ++ known.toList

/-- What the comments of an artifact say. -/
def comments (a : Artifact) : List (List Char) :=
  ["typeshape artifact ".toList ++ a.version.toList] ++
    a.header.flatMap (fun header => Text.lines header.toList) ++
      factLines "generated-at: " a.generatedAt ++ factLines "source-hash: " a.sourceHash

/-- The lines from which an artifact is put together. -/
def rawLines (a : Artifact) : List (List Char) :=
  a.comments.map commentLine ++ a.types.flatMap fun entry => [[], entry.typeLine, entry.schemaLine]

theorem ended_map_commentLine (lines : List (List Char)) :
    Text.ended (lines.map commentLine) = lines.flatMap comment := by
  rw [Text.ended, List.flatMap_map]
  rfl

theorem factText_eq_ended (label : String) (fact : Option String) :
    factText label fact = Text.ended ((factLines label fact).map commentLine) := by
  cases fact with
  | none => rfl
  | some known =>
    rw [ended_map_commentLine]
    exact (List.append_nil _).symm

theorem entryText_eq_ended (entry : ArtifactEntry) :
    entryText entry = Text.ended [[], entry.typeLine, entry.schemaLine] := by
  unfold entryText Text.ended ArtifactEntry.typeLine ArtifactEntry.schemaLine
  -- the words themselves do not matter, and taking them apart takes long
  generalize "type ".toList = typeWord
  generalize "schema ".toList = schemaWord
  generalize " = ".toList = equals
  simp only [List.flatMap_cons, List.flatMap_nil, List.append_assoc, List.cons_append,
    List.nil_append]

/-- The text of an artifact is made of lines. -/
theorem text_eq_ended (a : Artifact) : a.text = Text.ended a.rawLines := by
  have hheaders : a.header.flatMap headerText = Text.ended
      ((a.header.flatMap fun header => Text.lines header.toList).map commentLine) := by
    rw [ended_map_commentLine, List.flatMap_assoc]
    rfl
  have hentries : a.types.flatMap entryText = Text.ended
      (a.types.flatMap fun entry => [[], entry.typeLine, entry.schemaLine]) := by
    rw [Text.ended, List.flatMap_assoc]
    exact List.flatMap_congr fun entry _ => entryText_eq_ended entry
  have hversion : comment ("typeshape artifact ".toList ++ a.version.toList) =
      Text.ended (["typeshape artifact ".toList ++ a.version.toList].map commentLine) := by
    rw [ended_map_commentLine, List.flatMap_singleton]
  rw [text, rawLines, comments, hversion, hheaders, factText_eq_ended, factText_eq_ended, hentries]
  generalize ["typeshape artifact ".toList ++ a.version.toList] = front
  simp only [Text.ended, List.map_append, List.flatMap_append]

/-! ## The lines that matter -/

/-- Whether a line is neither blank nor a comment. -/
def isContent (line : List Char) : Bool := !line.isEmpty && !(['/', '/'].isPrefixOf line)

/-- The lines of a text that are neither blank nor comments. -/
def contentLines (text : List Char) : List (List Char) := (Text.lines text).filter isContent

/-- The two lines of an entry. -/
def entryLines (entry : ArtifactEntry) : List (List Char) := [entry.typeLine, entry.schemaLine]

/-- The lines of a tidy text that matter are the trimmed lines that matter of the text. -/
theorem contentLines_tidy (text : List Char) :
    contentLines (Text.tidy text) = ((Text.lines text).map Text.trimEnd).filter isContent := by
  have hnonempty (lines : List (List Char)) :
      lines.filter isContent = (lines.filter (· ≠ [])).filter isContent := by
    rw [List.filter_filter]
    refine List.filter_congr fun line _ => ?_
    cases line <;> simp [isContent]
  rw [contentLines, hnonempty, Text.filter_lines_tidy, ← hnonempty]

/-- If the ends of lines are treated so that blank lines stay blank, comments stay comments and
semicolons are kept, the lines of the entries are those that matter. -/
theorem filter_map_rawLines {trim : List Char → List Char} (hblank : trim [] = [])
    (hcomment : ∀ line, ∃ rest, trim (commentLine line) = '/' :: '/' :: rest)
    (hentry : ∀ line, trim (line ++ [';']) = line ++ [';']) (a : Artifact) :
    (a.rawLines.map trim).filter isContent = a.types.flatMap entryLines := by
  have hcomments : ((a.comments.map commentLine).map trim).filter isContent = [] := by
    simp only [List.filter_eq_nil_iff, List.forall_mem_map]
    intro line _
    obtain ⟨rest, hrest⟩ := hcomment line
    rw [hrest]
    exact Bool.false_ne_true
  have hentries (entry : ArtifactEntry) :
      ([[], entry.typeLine, entry.schemaLine].map trim).filter isContent = entryLines entry := by
    have htype : trim entry.typeLine = entry.typeLine := hentry _
    have hschema : trim entry.schemaLine = entry.schemaLine := hentry _
    rw [List.map_cons, List.map_cons, List.map_singleton, hblank, htype, hschema]
    rfl
  rw [rawLines, List.map_append, List.filter_append, hcomments, List.nil_append, List.map_flatMap,
    List.filter_flatMap]
  exact List.flatMap_congr fun entry _ => hentries entry

variable {a : Artifact}

theorem contentLines_text (h : ∀ line ∈ a.rawLines, '\n' ∉ line) :
    contentLines a.text = a.types.flatMap entryLines := by
  have hcomment (line : List Char) :
      ∃ rest, Text.dropReturn (commentLine line) = '/' :: '/' :: rest := by
    refine ⟨Text.dropReturn (' ' :: line), ?_⟩
    rw [commentLine, Text.dropReturn_cons (by decide), Text.dropReturn_cons (by decide)]
  have hentry (line : List Char) : Text.dropReturn (line ++ [';']) = line ++ [';'] := by
    rw [Text.dropReturn_concat]
    rfl
  rw [contentLines, text_eq_ended, Text.lines_ended h, filter_map_rawLines rfl hcomment hentry]

theorem contentLines_render (h : ∀ line ∈ a.rawLines, '\n' ∉ line) :
    contentLines a.render = a.types.flatMap entryLines := by
  have htrim : (a.rawLines.map Text.dropReturn).map Text.trimEnd = a.rawLines.map Text.trimEnd := by
    rw [List.map_map]
    exact List.map_congr_left fun line _ => Text.trimEnd_dropReturn line
  have hcomment (line : List Char) :
      ∃ rest, Text.trimEnd (commentLine line) = '/' :: '/' :: rest := by
    refine ⟨Text.trimEnd (' ' :: line), ?_⟩
    rw [commentLine, Text.trimEnd_cons (by decide), Text.trimEnd_cons (by decide)]
  have hentry (line : List Char) : Text.trimEnd (line ++ [';']) = line ++ [';'] := by
    rw [Text.trimEnd_concat]
    rfl
  rw [render, contentLines_tidy, text_eq_ended, Text.lines_ended h, htrim,
    filter_map_rawLines rfl hcomment hentry]

/-! ## Lines without line feeds -/

theorem newline_notMem_factLines {label : String} (hlabel : '\n' ∉ label.toList)
    {fact : Option String} (h : ∀ known ∈ fact, '\n' ∉ known.toList) :
    ∀ line ∈ factLines label fact, '\n' ∉ line := by
  cases fact with
  | none => exact List.forall_mem_nil _
  | some known =>
    exact List.forall_mem_singleton.2 (List.not_mem_append hlabel (h known rfl))

/-- The comments of an artifact stand on one line each, whatever the header is. -/
theorem newline_notMem_comments (hversion : '\n' ∉ a.version.toList)
    (hgeneratedAt : ∀ time ∈ a.generatedAt, '\n' ∉ time.toList)
    (hsourceHash : ∀ hash ∈ a.sourceHash, '\n' ∉ hash.toList) :
    ∀ line ∈ a.comments, '\n' ∉ line := by
  have hfront : '\n' ∉ "typeshape artifact ".toList ++ a.version.toList :=
    List.not_mem_append (by decide) hversion
  have hheader : ∀ line ∈ a.header.flatMap fun header => Text.lines header.toList, '\n' ∉ line := by
    intro line hmem
    obtain ⟨header, -, hline⟩ := List.mem_flatMap.1 hmem
    exact Text.notMem_of_mem_lines hline
  have htime : ∀ line ∈ factLines "generated-at: " a.generatedAt, '\n' ∉ line :=
    newline_notMem_factLines (by decide) hgeneratedAt
  have hhash : ∀ line ∈ factLines "source-hash: " a.sourceHash, '\n' ∉ line :=
    newline_notMem_factLines (by decide) hsourceHash
  rw [comments]
  simp only [List.forall_mem_append]
  exact ⟨⟨⟨List.forall_mem_singleton.2 hfront, hheader⟩, htime⟩, hhash⟩

theorem newline_notMem_entryLines {entry : ArtifactEntry} (hname : '\n' ∉ entry.name.toList)
    (hdeclaration : '\n' ∉ entry.declaration.toList) :
    '\n' ∉ entry.typeLine ∧ '\n' ∉ entry.schemaLine := by
  have hline {word text : List Char} (hword : '\n' ∉ word) (htext : '\n' ∉ text) :
      '\n' ∉ word ++ entry.name.toList ++ " = ".toList ++ text ++ [';'] := by
    have hequals : '\n' ∉ " = ".toList := by decide
    have hfront := List.not_mem_append (List.not_mem_append hword hname) hequals
    exact List.not_mem_append (List.not_mem_append hfront htext) (by decide)
  exact ⟨hline (by decide) hdeclaration,
    hline (by decide) (Json.newline_notMem_compactChars entry.schema.toJson)⟩

theorem newline_notMem_rawLines (hcomments : ∀ line ∈ a.comments, '\n' ∉ line)
    (htypes : ∀ entry ∈ a.types, '\n' ∉ entry.name.toList ∧ '\n' ∉ entry.declaration.toList) :
    ∀ line ∈ a.rawLines, '\n' ∉ line := by
  have hentries : ∀ entry ∈ a.types,
      ∀ line ∈ [[], entry.typeLine, entry.schemaLine], '\n' ∉ line := by
    intro entry hentry
    obtain ⟨hname, hdeclaration⟩ := htypes entry hentry
    obtain ⟨htype, hschema⟩ := newline_notMem_entryLines hname hdeclaration
    exact List.forall_mem_cons.2 ⟨List.not_mem_nil,
      List.forall_mem_cons.2 ⟨htype, List.forall_mem_singleton.2 hschema⟩⟩
  rw [rawLines, List.forall_mem_append, List.forall_mem_map]
  refine ⟨fun line hline => ?_, fun line hline => ?_⟩
  · have hslashes : '\n' ∉ "// ".toList := by decide
    exact List.not_mem_append hslashes (hcomments line hline)
  · obtain ⟨entry, hentry, hline⟩ := List.mem_flatMap.1 hline
    exact hentries entry hentry line hline

end Artifact

/-! ## Artifacts of catalogs -/

/-- What is published for the definitions of a catalog has no line feeds in it. -/
theorem Catalog.newline_notMem_published {c : Catalog}
    (hshapes : ∀ d ∈ c.definitions.types, d.shape.WellFormed c.names) :
    ∀ entry ∈ c.definitions.types.map Definition.published,
      '\n' ∉ entry.name.toList ∧ '\n' ∉ entry.declaration.toList := by
  have hnames : ∀ name ∈ c.names, '\n' ∉ name.toList := by
    have hdistinct : DistinctIdentifiers c.names := firstOffence?_nil_eq_none_iff.1 c.inoffensive
    exact fun name hmem => (hdistinct.identifiers name hmem).newline_notMem
  refine List.forall_mem_map.2 fun d hd => ⟨hnames d.name (List.mem_map_of_mem hd), ?_⟩
  rw [Definition.published, Declaration.render, String.toList_ofList]
  exact Declaration.newline_notMem_text hnames (hshapes d hd)

/-- An artifact of a catalog has two lines for each definition, in their order: the name with the
declaration, and the name with the schema. All other lines are blank or comments, whatever is said
in the header; and neither tidying nor anything in a definition changes that. -/
theorem Artifact.contentLines_ofRegistry {c : Catalog} {r : Registry} (hr : c.compile = .ok r)
    (header : List String) {generatedAt sourceHash : Option String}
    (hgeneratedAt : ∀ time ∈ generatedAt, '\n' ∉ time.toList)
    (hsourceHash : ∀ hash ∈ sourceHash, '\n' ∉ hash.toList) {a : Artifact}
    (ha : a = { Artifact.ofRegistry r with header, generatedAt, sourceHash }) :
    a.types = c.definitions.types.map Definition.published ∧
      contentLines a.text = a.types.flatMap (fun entry => [entry.typeLine, entry.schemaLine]) ∧
      contentLines a.render = a.types.flatMap fun entry => [entry.typeLine, entry.schemaLine] := by
  obtain ⟨hw, rfl⟩ := Registry.compile_eq_ok (Catalog.compile_eq_ok hr)
  have htypes : a.types = c.definitions.types.map Definition.published := by
    rw [ha]
    exact types_ofRegistry_link c.definitions
  have hcomments : ∀ line ∈ a.comments, '\n' ∉ line := by
    have hversion : '\n' ∉ formatVersion.toList := by decide
    subst ha
    exact newline_notMem_comments hversion hgeneratedAt hsourceHash
  have hlines : ∀ line ∈ a.rawLines, '\n' ∉ line :=
    newline_notMem_rawLines hcomments (htypes ▸ Catalog.newline_notMem_published hw.shapes)
  exact ⟨htypes, contentLines_text hlines, contentLines_render hlines⟩

/-- A catalog in which a key and a literal look like lines of an artifact. -/
def Catalog.trap : Catalog :=
  ⟨⟨none, [⟨"Trap", .object [⟨"a\n// b", .literal (.string "x;\ntype Y = any;"), true⟩]⟩]⟩, .inline,
    by decide⟩

/-- An artifact of it, with a header that looks like a line of an artifact as well. -/
def Artifact.trap : Artifact :=
  { ofRegistry Catalog.trap.definitions.link with
    header := ["see\ntype X = any;\r\n"], generatedAt := some "today", sourceHash := none }

/-- None of the lines that the definition and the header look like comes to pass. -/
theorem Artifact.trap_framed :
    Catalog.trap.compile = .ok Catalog.trap.definitions.link ∧
      (contentLines Artifact.trap.render).map String.ofList =
        ["type Trap = \x7b \"a\\n// b\": \"x;\\ntype Y = any;\" \x7d;",
          "schema Trap = \x7b\"type\":\"object\",\"properties\":[\x7b\"name\":\"a\\n// b\"," ++
          "\"required\":true,\"schema\":\x7b\"type\":\"const\",\"value\":\"x;\\ntype Y = any;\"" ++
          "\x7d\x7d]\x7d;"] := by
  have hr : Catalog.trap.compile = .ok Catalog.trap.definitions.link := rfl
  have htime : ∀ time ∈ some "today", '\n' ∉ time.toList := by decide
  have hhash : ∀ hash ∈ (none : Option String), '\n' ∉ hash.toList := nofun
  have hmade : trap = { ofRegistry Catalog.trap.definitions.link with
      header := ["see\ntype X = any;\r\n"], generatedAt := some "today", sourceHash := none } := rfl
  obtain ⟨htypes, -, hrender⟩ := contentLines_ofRegistry hr _ htime hhash hmade
  rw [hrender, htypes]
  exact ⟨hr, by decide +kernel⟩

end JsonShape
