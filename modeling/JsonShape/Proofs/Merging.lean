import JsonShape.Proofs.Directories

/-!
# Proofs: merges of merges

What comes out of a merge may be merged again. How merges are nested makes no difference in the end.
Every one of them checks all names that it gets, so a collision comes up sooner in some trees than
in others; but the check at the root sees the names of all leaves, and if these are distinct then so
are the names of each part. The names within one leaf are distinct anyhow, as it is a catalog. All
that can go wrong is therefore that two leaves share a name, in whatever order they stand.

Definitions are put together in the order of the leaves, and the version that they end up with is
set by the merge at the root.
-/

namespace JsonShape

namespace Catalog

/-- Two results are both errors, or they are catalogs with the same definitions and checksum. -/
inductive SameOutcome : Except LoadError Catalog → Except LoadError Catalog → Prop where
  | error (e e' : LoadError) : SameOutcome (.error e) (.error e')
  | ok {c c' : Catalog} (hdefinitions : c.definitions = c'.definitions)
      (hchecksum : c.checksum = c'.checksum) : SameOutcome (.ok c) (.ok c')

theorem sameOutcome_of {x y : Except LoadError Catalog}
    (hboth : (∃ c, x = .ok c) ↔ ∃ c, y = .ok c)
    (hsame : ∀ c c', x = .ok c → y = .ok c' → c.definitions = c'.definitions) :
    SameOutcome x y := by
  cases x with
  | error e =>
    cases y with
    | error e' => exact .error e e'
    | ok c' =>
      obtain ⟨c, hc⟩ := hboth.2 ⟨c', rfl⟩
      cases hc
  | ok c =>
    cases y with
    | error e' =>
      obtain ⟨c', hc'⟩ := hboth.1 ⟨c, rfl⟩
      cases hc'
    | ok c' =>
      have hdefinitions : c.definitions = c'.definitions := hsame c c' rfl rfl
      exact .ok hdefinitions (by rw [checksum, checksum, hdefinitions])

theorem SameOutcome.exists_ok {c : Catalog} {y : Except LoadError Catalog}
    (h : SameOutcome (.ok c) y) :
    ∃ c', y = .ok c' ∧ c'.definitions = c.definitions ∧ c'.checksum = c.checksum := by
  cases h with
  | ok hdefinitions hchecksum => exact ⟨_, rfl, hdefinitions.symm, hchecksum.symm⟩

end Catalog

/-- A tree of merges. Each merges what comes out of its branches, of which it has at least one, and
at the leaves there are catalogs. -/
inductive Merging where
  | leaf (c : Catalog)
  | merge (first : Merging) (rest : List Merging)

namespace Merging

mutual

/-- Merges from the leaves to the root and from left to right, up to the first merge that fails. -/
def run : Merging → Except LoadError Catalog
  | leaf c => .ok c
  | merge first rest => do
    let part ← run first
    let parts ← runAll rest
    Catalog.merge (part :: parts)

/-- What comes out of some trees. -/
def runAll : List Merging → Except LoadError (List Catalog)
  | [] => .ok []
  | tree :: rest => do
    let part ← run tree
    let parts ← runAll rest
    return part :: parts

end

mutual

/-- The catalogs at the leaves from left to right. -/
def leaves : Merging → List Catalog
  | leaf c => [c]
  | merge first rest => leaves first ++ leavesAll rest

/-- The catalogs at the leaves of some trees. -/
def leavesAll : List Merging → List Catalog
  | [] => []
  | tree :: rest => leaves tree ++ leavesAll rest

end

/-- The tree is more than a leaf. -/
inductive IsMerge : Merging → Prop where
  | merge (first : Merging) (rest : List Merging) : IsMerge (.merge first rest)

/-- Induction over a tree: the branches of a merge are taken for granted. -/
@[elab_as_elim, induction_eliminator]
theorem induction {motive : Merging → Prop} (leaf : ∀ c, motive (.leaf c))
    (merge : ∀ first rest, (∀ tree ∈ first :: rest, motive tree) → motive (.merge first rest)) :
    ∀ tree, motive tree :=
  @Merging.rec motive (fun trees => ∀ tree ∈ trees, motive tree) leaf
    (fun first rest hfirst hrest => merge first rest (List.forall_mem_cons.2 ⟨hfirst, hrest⟩))
    (List.forall_mem_nil _) (fun _ _ h hs => List.forall_mem_cons.2 ⟨h, hs⟩)

variable {tree first : Merging} {trees rest : List Merging} {c : Catalog} {parts : List Catalog}

/-! ## Leaves -/

/-- The definitions at the leaves from left to right. -/
def types (tree : Merging) : List Definition :=
  tree.leaves.flatMap fun c => c.definitions.types

theorem leavesAll_eq_flatMap (trees : List Merging) : leavesAll trees = trees.flatMap leaves := by
  induction trees with
  | nil => rw [leavesAll, List.flatMap_nil]
  | cons tree rest ih => rw [leavesAll, List.flatMap_cons, ih]

theorem leaves_merge (first : Merging) (rest : List Merging) :
    (merge first rest).leaves = (first :: rest).flatMap leaves := by
  rw [leaves, leavesAll_eq_flatMap, List.flatMap_cons]

theorem types_leaf (c : Catalog) : (leaf c).types = c.definitions.types := by
  rw [types, leaves, List.flatMap_singleton]

theorem types_merge (first : Merging) (rest : List Merging) :
    (merge first rest).types = (first :: rest).flatMap types := by
  rw [types, leaves_merge, List.flatMap_assoc]
  rfl

/-- Leaves have distinct names of their own, so only a name of two of them can be in the way. -/
theorem distinctIdentifiers_leaves_iff (leaves : List Catalog) :
    DistinctIdentifiers ((leaves.flatMap fun c => c.definitions.types).map Definition.name) ↔
      leaves.Pairwise fun c c' => c.names.Disjoint c'.names := by
  have hown : ∀ c : Catalog, DistinctIdentifiers c.names := fun c =>
    firstOffence?_nil_eq_none_iff.1 c.inoffensive
  have hnames : (leaves.flatMap fun c => c.definitions.types).map Definition.name =
      leaves.flatMap Catalog.names := List.map_flatMap
  rw [hnames]
  constructor
  · intro h
    exact (List.nodup_flatMap.1 h.distinct).2
  · intro h
    refine ⟨fun name hmem => ?_, List.nodup_flatMap.2 ⟨fun c _ => (hown c).distinct, h⟩⟩
    obtain ⟨c, -, hname⟩ := List.mem_flatMap.1 hmem
    exact (hown c).identifiers name hname

/-! ## What comes out of a tree -/

theorem runAll_eq_mapM (trees : List Merging) : runAll trees = trees.mapM run := by
  induction trees with
  | nil => rfl
  | cons tree rest ih => rw [runAll, List.mapM_cons, ih]

/-- A merge goes through if its branches do and what comes out of them can be merged. -/
theorem run_merge_eq_ok_iff : (merge first rest).run = .ok c ↔
    ∃ parts, List.Forall₂ (fun tree part => tree.run = .ok part) (first :: rest) parts ∧
      Catalog.merge parts = .ok c := by
  rw [run, bind_eq_ok_iff]
  simp only [bind_eq_ok_iff, runAll_eq_mapM, mapM_eq_ok_iff]
  constructor
  · rintro ⟨part, hpart, parts, hparts, hc⟩
    exact ⟨part :: parts, .cons hpart hparts, hc⟩
  · rintro ⟨_, hparts, hc⟩
    cases hparts with
    | cons hpart hparts => exact ⟨_, hpart, _, hparts, hc⟩

/-- The definitions that come out of some trees are those at the leaves, if that holds for each. -/
theorem flatMap_types (htypes : ∀ tree ∈ trees, ∀ part, tree.run = .ok part →
      part.definitions.types = tree.types)
    (hparts : List.Forall₂ (fun tree part => tree.run = .ok part) trees parts) :
    (parts.flatMap fun part => part.definitions.types) = trees.flatMap types := by
  induction hparts with
  | nil => rfl
  | cons hpart _ ih =>
    obtain ⟨hfirst, hrest⟩ := List.forall_mem_cons.1 htypes
    rw [List.flatMap_cons, List.flatMap_cons, hfirst _ hpart, ih hrest]

theorem types_of_run (h : tree.run = .ok c) : c.definitions.types = tree.types := by
  induction tree generalizing c with
  | leaf c' =>
    rw [run, Except.ok.injEq] at h
    rw [types_leaf, h]
  | merge first rest ih =>
    obtain ⟨parts, hparts, hc⟩ := run_merge_eq_ok_iff.1 h
    obtain ⟨-, -, hjoined, -⟩ := Catalog.merge_eq_ok_iff.1 hc
    rw [hjoined, types_merge, Catalog.joined]
    exact flatMap_types (fun tree hmem part hpart => ih tree hmem hpart) hparts

/-- The version is that of the merge at the root. -/
theorem definitions_of_run (ht : tree.IsMerge) (h : tree.run = .ok c) :
    c.definitions = ⟨some formatVersion, tree.types⟩ := by
  cases ht with
  | merge first rest =>
    obtain ⟨parts, hparts, hc⟩ := run_merge_eq_ok_iff.1 h
    obtain ⟨-, -, hjoined, -⟩ := Catalog.merge_eq_ok_iff.1 hc
    rw [hjoined, types_merge, Catalog.joined,
      flatMap_types (fun _ _ _ hpart => types_of_run hpart) hparts]

theorem exists_forall₂_run (h : ∀ tree ∈ trees, ∃ part, tree.run = .ok part) :
    ∃ parts, List.Forall₂ (fun tree part => tree.run = .ok part) trees parts := by
  induction trees with
  | nil => exact ⟨[], .nil⟩
  | cons tree rest ih =>
    obtain ⟨⟨part, hpart⟩, hrest⟩ := List.forall_mem_cons.1 h
    obtain ⟨parts, hparts⟩ := ih hrest
    exact ⟨part :: parts, .cons hpart hparts⟩

/-- All merges go through just in case the names at the leaves are distinct. -/
theorem exists_run_iff_distinctIdentifiers (tree : Merging) :
    (∃ c, tree.run = .ok c) ↔ DistinctIdentifiers (tree.types.map Definition.name) := by
  induction tree with
  | leaf c =>
    rw [types_leaf]
    exact iff_of_true ⟨c, run.eq_1 c⟩ (firstOffence?_nil_eq_none_iff.1 c.inoffensive)
  | merge first rest ih =>
    constructor
    · rintro ⟨c, h⟩
      obtain ⟨parts, -, hc⟩ := run_merge_eq_ok_iff.1 h
      obtain ⟨-, hdistinct, -⟩ := Catalog.merge_eq_ok_iff.1 hc
      rwa [← types_of_run h]
    · intro h
      rw [types_merge] at h
      -- the names of a branch are some of those at the root, in their order
      have hbranches : ∀ tree ∈ first :: rest, ∃ part, tree.run = .ok part := by
        intro tree hmem
        have hsub : tree.types.Sublist ((first :: rest).flatMap types) :=
          List.sublist_flatten_of_mem (List.mem_map_of_mem hmem)
        exact (ih tree hmem).2 (h.sublist (hsub.map _))
      obtain ⟨parts, hparts⟩ := exists_forall₂_run hbranches
      rw [← flatMap_types (fun _ _ _ hpart => types_of_run hpart) hparts] at h
      have hsome : parts ≠ [] := by
        rintro rfl
        cases hparts
      obtain ⟨c, hc⟩ := Catalog.exists_merge_iff.2 ⟨hsome, h⟩
      exact ⟨c, run_merge_eq_ok_iff.2 ⟨parts, hparts, hc⟩⟩

/-- All merges go through just in case no name is defined at two leaves. -/
theorem exists_run_iff (tree : Merging) : (∃ c, tree.run = .ok c) ↔
    tree.leaves.Pairwise fun c c' => c.names.Disjoint c'.names := by
  rw [exists_run_iff_distinctIdentifiers, types, distinctIdentifiers_leaves_iff]

/-! ## Other trees with the same leaves -/

theorem leaves_ne_nil (tree : Merging) : tree.leaves ≠ [] := by
  induction tree with
  | leaf c => exact List.cons_ne_nil c []
  | merge first rest ih =>
    rw [leaves]
    exact List.append_ne_nil_of_left_ne_nil (ih first List.mem_cons_self) _

theorem sameOutcome_of_leaves_eq {tree' : Merging} (ht : tree.IsMerge) (ht' : tree'.IsMerge)
    (h : tree'.leaves = tree.leaves) : Catalog.SameOutcome tree.run tree'.run := by
  refine Catalog.sameOutcome_of ?_ fun c c' hc hc' => ?_
  · rw [exists_run_iff, exists_run_iff, h]
  · rw [definitions_of_run ht hc, definitions_of_run ht' hc', types, types, h]

theorem sameOutcome_merge_leaves (ht : tree.IsMerge) :
    Catalog.SameOutcome tree.run (Catalog.merge tree.leaves) := by
  refine Catalog.sameOutcome_of ?_ fun c c' hc hc' => ?_
  · rw [exists_run_iff_distinctIdentifiers, Catalog.exists_merge_iff]
    exact (and_iff_right tree.leaves_ne_nil).symm
  · obtain ⟨-, -, hjoined, -⟩ := Catalog.merge_eq_ok_iff.1 hc'
    rw [definitions_of_run ht hc, hjoined, types, Catalog.joined]

theorem exists_run_iff_of_perm {tree' : Merging} (h : tree'.leaves.Perm tree.leaves) :
    (∃ c, tree'.run = .ok c) ↔ ∃ c, tree.run = .ok c := by
  rw [exists_run_iff, exists_run_iff]
  exact h.pairwise_iff List.disjoint_symm

/-- Merges may be nested as one likes. All of them go through just in case no name is defined at two
leaves, and then the definitions are those at the leaves, from left to right, in the current version
of the format. So any other tree with the same leaves, and the merge of all leaves at once, have the
same outcome; and leaves in another order can be merged just in case these can. -/
theorem grouping_irrelevant {tree : Merging} (ht : tree.IsMerge) :
    ((∃ c, tree.run = .ok c) ↔
      tree.leaves.Pairwise fun c c' => c.names.Disjoint c'.names) ∧
    (∀ c, tree.run = .ok c → c.definitions =
      ⟨some "1.0.0", tree.leaves.flatMap fun leaf => leaf.definitions.types⟩) ∧
    (∀ tree' : Merging, tree'.IsMerge → tree'.leaves = tree.leaves →
      Catalog.SameOutcome tree.run tree'.run) ∧
    Catalog.SameOutcome tree.run (Catalog.merge tree.leaves) ∧
    ∀ tree' : Merging, tree'.leaves.Perm tree.leaves →
      ((∃ c, tree'.run = .ok c) ↔ ∃ c, tree.run = .ok c) := by
  refine ⟨exists_run_iff tree, fun c hc => ?_, fun tree' ht' h => ?_, ?_, fun tree' h => ?_⟩
  · exact definitions_of_run ht hc
  · exact sameOutcome_of_leaves_eq ht ht' h
  · exact sameOutcome_merge_leaves ht
  · exact exists_run_iff_of_perm h

end Merging

/-- Cups in a catalog of their own. -/
def Catalog.cups : Catalog := ⟨⟨none, [⟨"Cup", .null⟩]⟩, .inline, rfl⟩

/-- What belongs to a cup, in a document of an older format. -/
def Catalog.extras : Catalog :=
  ⟨⟨some "0.9.0", [⟨"Lid", .alias "Cup"⟩, ⟨"Saucer", .array .any⟩]⟩, .file "extras.json", rfl⟩

/-- Spoons, which lie on saucers. -/
def Catalog.spoons : Catalog := ⟨⟨none, [⟨"Spoon", .alias "Saucer"⟩]⟩, .inline, rfl⟩

instance (c c' : Catalog) : Decidable (c.names.Disjoint c'.names) :=
  inferInstanceAs (Decidable (∀ name ∈ c.names, name ∉ c'.names))

namespace Merging

open Catalog (cups extras spoons)

/-- Cups and what belongs to them are merged first, then spoons are added. -/
def tableware : Merging := merge (merge (leaf cups) [leaf extras]) [leaf spoons]

/-- Nothing changes if spoons are first merged with what belongs to cups, or everything at once. The
catalogs can be merged in another order as well, but none of them twice. -/
theorem tableware_regrouped :
    tableware.IsMerge ∧
    (∃ c, tableware.run = .ok c ∧ c.definitions.version = some "1.0.0" ∧
      c.names = ["Cup", "Lid", "Saucer", "Spoon"] ∧
      (∃ c', (merge (leaf cups) [merge (leaf extras) [leaf spoons]]).run = .ok c' ∧
        c'.definitions = c.definitions ∧ c'.checksum = c.checksum) ∧
      ∃ m, Catalog.merge [cups, extras, spoons] = .ok m ∧
        m.definitions = c.definitions ∧ m.checksum = c.checksum) ∧
    (∃ c, (merge (leaf spoons) [merge (leaf extras) [leaf cups]]).run = .ok c) ∧
    ¬∃ c, (merge tableware [merge (leaf cups) []]).run = .ok c := by
  have htree : tableware.IsMerge := .merge _ _
  obtain ⟨hsucceeds, hdefinitions, hgrouping, hflat, hperm⟩ := grouping_irrelevant htree
  have hdisjoint : tableware.leaves.Pairwise fun c c' => c.names.Disjoint c'.names := by decide
  obtain ⟨c, hc⟩ := hsucceeds.2 hdisjoint
  have hregrouped := hgrouping (merge (leaf cups) [merge (leaf extras) [leaf spoons]])
    (.merge _ _) rfl
  have hturned : [spoons, extras, cups].Perm [cups, extras, spoons] :=
    List.reverse_perm [cups, extras, spoons]
  have htwice : ¬(merge tableware [merge (leaf cups) []]).leaves.Pairwise
      fun c c' => c.names.Disjoint c'.names := by decide
  rw [hc] at hregrouped hflat
  refine ⟨htree, ⟨c, hc, ?_, ?_, hregrouped.exists_ok, hflat.exists_ok⟩, ?_, ?_⟩
  · rw [hdefinitions c hc]
  · rw [Catalog.names, hdefinitions c hc]
    rfl
  · exact (hperm (merge (leaf spoons) [merge (leaf extras) [leaf cups]]) hturned).2 ⟨c, hc⟩
  · exact mt (grouping_irrelevant (.merge _ _)).1.1 htwice

end Merging

end JsonShape
