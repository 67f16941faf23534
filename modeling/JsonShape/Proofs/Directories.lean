import Mathlib.Data.String.Basic
import JsonShape.Proofs.Naming

/-!
# Proofs: directories of documents

To load a directory is to load its documents one by one, in the order of their names, and to merge
the catalogs. A directory has its names checked only after everything has been put together, so this
rests on one fact: if all names together are distinct identifiers, so are those of each document.
The other direction is easy, as merging checks all names once more.

The version of the format that a document states is dropped on both ways.
-/

namespace JsonShape

theorem DistinctIdentifiers.sublist {names some : List String} (h : DistinctIdentifiers names)
    (hsub : some.Sublist names) : DistinctIdentifiers some :=
  ⟨fun name hmem => h.identifiers name (hsub.subset hmem), hsub.nodup h.distinct⟩

/-! ## Names in order -/

theorem pairwise_mergeSort (names : List String) :
    (names.mergeSort fun a b => decide (a ≤ b)).Pairwise (· ≤ ·) := by
  have htrans : ∀ a b c : String, decide (a ≤ b) → decide (b ≤ c) → decide (a ≤ c) := by
    simp only [decide_eq_true_eq]
    exact fun _ _ _ => le_trans
  have htotal : ∀ a b : String, decide (a ≤ b) || decide (b ≤ a) := by
    simp only [Bool.or_eq_true, decide_eq_true_eq]
    exact le_total
  simpa using List.pairwise_mergeSort htrans htotal names

/-- There is one way only to put some of the names in order. -/
theorem filter_mergeSort_eq {names sorted : List String} {kept : String → Bool}
    (h : sorted.Perm (names.filter kept)) (hsorted : sorted.Pairwise (· ≤ ·)) :
    (names.mergeSort fun a b => decide (a ≤ b)).filter kept = sorted :=
  (((List.mergeSort_perm _ _).filter kept).trans h.symm).eq_of_pairwise
    (fun _ _ _ _ => le_antisymm) ((pairwise_mergeSort names).filter kept) hsorted

namespace Catalog

variable {files : Files} {path : String} {c m : Catalog}

/-- Whether a name in the directory at a path shows a format. -/
def isSupported (path name : String) : Bool := (Format.ofPath? (Path.join path name)).isSome

theorem documents_eq_ok {names sorted : List String}
    (hdirectory : files path = .ok (.directory names))
    (hfiles : ∀ name ∈ names, ∃ bytes, files (Path.join path name) = .ok (.file bytes))
    (hperm : sorted.Perm (names.filter (isSupported path))) (hsorted : sorted.Pairwise (· ≤ ·)) :
    documents files path = .ok (sorted.map (Path.join path)) := by
  have hnames : files.names path = .ok names := by rw [Files.names, hdirectory]
  have hsupported : ∀ name ∈ names.mergeSort fun a b => decide (a ≤ b),
      (files.hasFile (Path.join path name) && (Format.ofPath? (Path.join path name)).isSome) =
        isSupported path name := by
    intro name hmem
    obtain ⟨bytes, hfile⟩ := hfiles name (List.mem_mergeSort.1 hmem)
    rw [Files.hasFile, hfile]
    rfl
  rw [documents, hnames, ok_bind, pure_eq_ok, List.filter_map]
  dsimp only [Function.comp_def]
  rw [List.filter_congr hsupported, filter_mergeSort_eq hperm hsorted]

/-! ## Documents one by one -/

variable {paths : List String} {parts : List Catalog}

/-- What is read of documents one by one is what is read of them together. -/
theorem mapM_ofFile (h : List.Forall₂ (fun path part => ofFile files path = .ok part) paths parts) :
    paths.mapM (Definitions.ofFile files) = .ok (parts.map definitions) := by
  rw [mapM_eq_ok_iff, List.forall₂_map_right_iff]
  exact h.imp fun _ _ hpart => (ofFile_eq_ok_iff.1 hpart).1

/-- Documents that are read together make catalogs one by one, if the names in each permit. -/
theorem exists_of_mapM_ofFile {read : List Definitions}
    (h : paths.mapM (Definitions.ofFile files) = .ok read)
    (hnames : ∀ definitions ∈ read, DistinctIdentifiers definitions.names) :
    ∃ parts, List.Forall₂ (fun path part => ofFile files path = .ok part) paths parts ∧
      parts.map definitions = read := by
  rw [mapM_eq_ok_iff] at h
  induction h with
  | nil => exact ⟨[], .nil, rfl⟩
  | @cons path definitions paths others hread _ ih =>
    obtain ⟨hfirst, hothers⟩ := List.forall_mem_cons.1 hnames
    obtain ⟨parts, hparts, rfl⟩ := ih hothers
    obtain ⟨part, -, rfl⟩ := (exists_ofDefinitions_iff (.file path)).2 hfirst
    have hpart : ofFile files path = .ok { part with source := .file path } :=
      ofFile_eq_ok_iff.2 ⟨hread, hfirst, rfl⟩
    exact ⟨_ :: parts, .cons hpart hparts, rfl⟩

/-- If all names together are distinct identifiers, so are those of each document. -/
theorem distinctIdentifiers_of_mem_flatMap {read : List Definitions} {version : Option String}
    (h : DistinctIdentifiers (Definitions.names ⟨version, read.flatMap Definitions.types⟩)) :
    ∀ definitions ∈ read, DistinctIdentifiers definitions.names := by
  intro definitions hmem
  have hsub : definitions.types.Sublist (read.flatMap Definitions.types) :=
    List.sublist_flatten_of_mem (List.mem_map_of_mem hmem)
  exact h.sublist (hsub.map _)

/-! ## Together and one by one -/

theorem ofDirectory_eq_ok_iff (hpaths : documents files path = .ok paths) :
    ofDirectory files path = .ok c ↔ ∃ read, paths.mapM (Definitions.ofFile files) = .ok read ∧
      DistinctIdentifiers c.names ∧
        c.definitions = ⟨some formatVersion, read.flatMap Definitions.types⟩ ∧
          c.source = .directory path := by
  rw [ofDirectory, hpaths, usable, ok_bind, bind_eq_ok_iff]
  simp only [ofDefinitions_eq_ok_iff]

theorem joined_eq (parts : List Catalog) :
    joined parts = ⟨some formatVersion, (parts.map definitions).flatMap Definitions.types⟩ := by
  rw [joined, List.flatMap_map]

/-- A directory is loaded just in case its documents are and the catalogs of them can be merged. -/
theorem ofDirectory_iff_merge (hpaths : documents files path = .ok paths) (hne : paths ≠ []) :
    (∃ c, ofDirectory files path = .ok c) ↔
      ∃ parts, List.Forall₂ (fun path part => ofFile files path = .ok part) paths parts ∧
        ∃ m, merge parts = .ok m := by
  constructor
  · rintro ⟨c, h⟩
    obtain ⟨read, hread, hdistinct, hdefinitions, -⟩ := (ofDirectory_eq_ok_iff hpaths).1 h
    rw [names, hdefinitions] at hdistinct
    obtain ⟨parts, hparts, rfl⟩ :=
      exists_of_mapM_ofFile hread (distinctIdentifiers_of_mem_flatMap hdistinct)
    have hsome : parts ≠ [] := by
      rintro rfl
      cases hparts
      exact hne rfl
    rw [← joined_eq] at hdistinct
    exact ⟨parts, hparts, exists_merge_iff.2 ⟨hsome, hdistinct⟩⟩
  · rintro ⟨parts, hparts, m, hm⟩
    obtain ⟨-, hdistinct, hjoined, -⟩ := merge_eq_ok_iff.1 hm
    refine ⟨{ m with source := .directory path }, (ofDirectory_eq_ok_iff hpaths).2 ?_⟩
    exact ⟨_, mapM_ofFile hparts, hdistinct, hjoined.trans (joined_eq parts), rfl⟩

/-- The definitions of a directory are those of its documents. -/
theorem definitions_eq_of_ofDirectory (hpaths : documents files path = .ok paths)
    (hparts : List.Forall₂ (fun path part => ofFile files path = .ok part) paths parts)
    (hc : ofDirectory files path = .ok c) (hm : merge parts = .ok m) :
    c.definitions = m.definitions := by
  obtain ⟨read, hread, -, hdefinitions, -⟩ := (ofDirectory_eq_ok_iff hpaths).1 hc
  obtain ⟨-, -, hjoined, -⟩ := merge_eq_ok_iff.1 hm
  rw [mapM_ofFile hparts] at hread
  cases hread
  rw [hdefinitions, hjoined, joined_eq]

/-- Loading a directory of files agrees with loading one by one, in the order of their names, those
that show a format, and merging them: either both are possible, or neither is, and then the
definitions are the same, with the version of the format, and so is the checksum. -/
theorem ofDirectory_agrees {names sorted : List String}
    (hdirectory : files path = .ok (.directory names))
    (hfiles : ∀ name ∈ names, ∃ bytes, files (Path.join path name) = .ok (.file bytes))
    (hperm : sorted.Perm (names.filter (isSupported path))) (hsorted : sorted.Pairwise (· ≤ ·))
    (hne : sorted ≠ []) :
    ((∃ c, ofDirectory files path = .ok c) ↔
      ∃ parts, List.Forall₂ (fun name part => ofFile files (Path.join path name) = .ok part)
        sorted parts ∧ ∃ m, merge parts = .ok m) ∧
    ∀ c parts m, ofDirectory files path = .ok c →
      List.Forall₂ (fun name part => ofFile files (Path.join path name) = .ok part) sorted parts →
      merge parts = .ok m → c.definitions = m.definitions ∧ c.checksum = m.checksum := by
  have hpaths := documents_eq_ok hdirectory hfiles hperm hsorted
  have hnonempty : sorted.map (Path.join path) ≠ [] := mt List.map_eq_nil_iff.1 hne
  constructor
  · rw [ofDirectory_iff_merge hpaths hnonempty]
    simp only [List.forall₂_map_left_iff]
  · intro c parts m hc hparts hm
    have hsame : c.definitions = m.definitions :=
      definitions_eq_of_ofDirectory hpaths (List.forall₂_map_left_iff.2 hparts) hc hm
    exact ⟨hsame, by rw [checksum, checksum, hsame]⟩

/-- The shelf is not in order, and the note on it shows no format. -/
theorem shelf_agrees :
    Files.shelf "types" = .ok (.directory ["lid.json", "notes.txt", "cup.JSON"]) ∧
    ∃ cup lid c m, ofFile .shelf "types/cup.JSON" = .ok cup ∧
      ofFile .shelf "types/lid.json" = .ok lid ∧ ofDirectory .shelf "types" = .ok c ∧
      merge [cup, lid] = .ok m ∧ c.names = ["Cup", "_2"] ∧ c.checksum = m.checksum := by
  have hdirectory :
      Files.shelf "types" = .ok (.directory ["lid.json", "notes.txt", "cup.JSON"]) := rfl
  have hcupPath : Path.join "types" "cup.JSON" = "types/cup.JSON" := by decide +kernel
  have hlidPath : Path.join "types" "lid.json" = "types/lid.json" := by decide +kernel
  have hnotesPath : Path.join "types" "notes.txt" = "types/notes.txt" := by decide +kernel
  have hfiles : ∀ name ∈ ["lid.json", "notes.txt", "cup.JSON"],
      ∃ bytes, Files.shelf (Path.join "types" name) = .ok (.file bytes) := by
    simp only [List.forall_mem_cons, hcupPath, hlidPath, hnotesPath]
    exact ⟨⟨_, rfl⟩, ⟨_, rfl⟩, ⟨_, rfl⟩, List.forall_mem_nil _⟩
  have hperm : ["cup.JSON", "lid.json"].Perm
      (["lid.json", "notes.txt", "cup.JSON"].filter (isSupported "types")) := by decide +kernel
  have hsorted : ["cup.JSON", "lid.json"].Pairwise (· ≤ ·) := by decide +kernel
  obtain ⟨hboth, hsame⟩ := ofDirectory_agrees hdirectory hfiles hperm hsorted (List.cons_ne_nil _ _)
  have hnames : (do
      let cup ← ofFile .shelf "types/cup.JSON"
      let lid ← ofFile .shelf "types/lid.json"
      merge [cup, lid]).toOption.map names = some ["Cup", "_2"] := by decide +kernel
  obtain ⟨m, hm, hnames⟩ := Option.map_eq_some_iff.1 hnames
  obtain ⟨cup, hcup, hm⟩ := exists_of_bind_eq_ok (ok_of_toOption_eq_some hm)
  obtain ⟨lid, hlid, hm⟩ := exists_of_bind_eq_ok hm
  have hparts : List.Forall₂ (fun name part => ofFile .shelf (Path.join "types" name) = .ok part)
      ["cup.JSON", "lid.json"] [cup, lid] :=
    .cons (hcupPath ▸ hcup) (.cons (hlidPath ▸ hlid) .nil)
  obtain ⟨c, hc⟩ := hboth.2 ⟨_, hparts, m, hm⟩
  obtain ⟨hdefinitions, hchecksum⟩ := hsame c _ m hc hparts hm
  refine ⟨hdirectory, cup, lid, c, m, hcup, hlid, hc, hm, ?_, hchecksum⟩
  rw [names, hdefinitions]
  exact hnames

end Catalog

end JsonShape
