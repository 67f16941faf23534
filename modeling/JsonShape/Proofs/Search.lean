import JsonShape.Registry.Cycle
import JsonShape.Proofs.Results

/-!
# Proofs: the search for cycles

Where the search meets no cycle, the vertices it is done with stand in the order in which they were
finished, and every vertex leads only to vertices that were finished before it. The place of a
vertex in that order is its *rank*; an edge leads to a lower rank.
-/

namespace JsonShape.Cycle

variable {targets : Nat → List Nat} {count : Nat}

/-- Every vertex of a list occurs once and leads only to vertices further down the list. -/
def Ordered (targets : Nat → List Nat) : List Nat → Prop
  | [] => True
  | vertex :: rest =>
    vertex ∉ rest ∧ (∀ target ∈ targets vertex, target ∈ rest) ∧ Ordered targets rest

/-- What a search that meets no cycle does to the vertices that are done: those that were done stay
so, and none of the active ones on the path becomes so. -/
structure Progress (targets : Nat → List Nat) (count : Nat) (path done later : List Nat) :
    Prop where
  ordered : Ordered targets later
  bounded : ∀ vertex ∈ later, vertex < count
  kept : ∀ vertex ∈ done, vertex ∈ later
  fresh : ∀ vertex ∈ path, vertex ∈ later → vertex ∈ done

theorem Progress.refl {path done : List Nat} (ho : Ordered targets done)
    (hb : ∀ vertex ∈ done, vertex < count) : Progress targets count path done done :=
  ⟨ho, hb, fun _ h => h, fun _ _ h => h⟩

theorem Progress.trans {path first second third : List Nat}
    (h : Progress targets count path first second)
    (h' : Progress targets count path second third) : Progress targets count path first third :=
  ⟨h'.ordered, h'.bounded, fun v hv => h'.kept v (h.kept v hv),
    fun v hp hv => h.fresh v hp (h'.fresh v hp hv)⟩

/-- A vertex is finished once all it leads to is done. -/
theorem Progress.finish {path done later : List Nat} {vertex : Nat}
    (h : Progress targets count (vertex :: path) done later) (hlt : vertex < count)
    (hd : vertex ∉ done) (hp : vertex ∉ path) (ht : ∀ target ∈ targets vertex, target ∈ later) :
    Progress targets count path done (vertex :: later) := by
  have hnew : vertex ∉ later := fun hv => hd (h.fresh vertex List.mem_cons_self hv)
  refine ⟨⟨hnew, ht, h.ordered⟩, List.forall_mem_cons.2 ⟨hlt, h.bounded⟩,
    fun v hv => List.mem_cons_of_mem _ (h.kept v hv), fun v hv hl => ?_⟩
  rcases List.mem_cons.1 hl with rfl | hl
  · exact absurd hv hp
  · exact h.fresh v (List.mem_cons_of_mem _ hv) hl

/-- Searching below several vertices, one after the other. -/
theorem Progress.fold {search : List Nat → Nat → Except (List Nat) (List Nat)}
    {path vertices : List Nat}
    (hsearch : ∀ vertex ∈ vertices, ∀ done later, Ordered targets done →
      (∀ v ∈ done, v < count) → search done vertex = .ok later →
      Progress targets count path done later ∧ vertex ∈ later)
    {done later : List Nat} (ho : Ordered targets done) (hb : ∀ v ∈ done, v < count)
    (h : vertices.foldlM search done = .ok later) :
    Progress targets count path done later ∧ ∀ vertex ∈ vertices, vertex ∈ later := by
  induction vertices generalizing done with
  | nil =>
    cases h
    exact ⟨.refl ho hb, by simp⟩
  | cons vertex rest ih =>
    rw [List.foldlM_cons] at h
    obtain ⟨middle, hm, h⟩ := exists_of_bind_eq_ok h
    obtain ⟨hfirst, hv⟩ := hsearch vertex List.mem_cons_self done middle ho hb hm
    obtain ⟨hrest, hvs⟩ := ih (fun v hv => hsearch v (List.mem_cons_of_mem _ hv))
      hfirst.ordered hfirst.bounded h
    exact ⟨hfirst.trans hrest, List.forall_mem_cons.2 ⟨hrest.kept vertex hv, hvs⟩⟩

/-- Distinct vertices below a bound are no more than the bound. -/
theorem length_le_of_nodup {vertices : List Nat} (hn : vertices.Nodup)
    (hb : ∀ vertex ∈ vertices, vertex < count) : vertices.length ≤ count := by
  have h := hn.length_le_of_subset fun v hv => List.mem_range.2 (hb v hv)
  rwa [List.length_range] at h

/-- A search that meets no cycle is done with its vertex. The budget is never used up, since the
path has no vertex twice. -/
theorem visit_progress (ht : ∀ vertex, ∀ target ∈ targets vertex, target < count) {budget : Nat}
    {path done later : List Nat} {vertex : Nat} (hbudget : path.length + budget = count + 1)
    (hn : path.Nodup) (hp : ∀ v ∈ path, v < count) (hv : vertex < count)
    (ho : Ordered targets done) (hb : ∀ v ∈ done, v < count)
    (h : visit targets budget path done vertex = .ok later) :
    Progress targets count path done later ∧ vertex ∈ later := by
  induction budget generalizing path done later vertex with
  | zero =>
    -- the path would have more vertices than there are
    have := length_le_of_nodup hn hp
    omega
  | succ budget ih =>
    rw [visit] at h
    split at h
    · next hdone =>
      cases h
      exact ⟨.refl ho hb, hdone⟩
    · next hdone =>
      split at h
      · cases h
      · next hpath =>
        obtain ⟨below, hbelow, h⟩ := exists_of_bind_eq_ok h
        cases h
        obtain ⟨hprogress, htargets⟩ := Progress.fold
          (fun target hmem done later ho hb hsearch =>
            ih (by rw [List.length_cons]; omega) (List.nodup_cons.2 ⟨hpath, hn⟩)
              (List.forall_mem_cons.2 ⟨hv, hp⟩) (ht vertex target hmem) ho hb hsearch)
          ho hb hbelow
        exact ⟨hprogress.finish hv hdone hpath htargets, List.mem_cons_self⟩

/-! ## Ranks -/

/-- The rank of a vertex in a list of vertices: how many stand after it. -/
def rank (vertex : Nat) : List Nat → Nat
  | [] => 0
  | first :: rest => if vertex = first then rest.length else rank vertex rest

theorem rank_lt_length {vertex : Nat} {order : List Nat} (h : vertex ∈ order) :
    rank vertex order < order.length := by
  induction order with
  | nil => exact absurd h List.not_mem_nil
  | cons first rest ih =>
    rw [rank, List.length_cons]
    split
    · omega
    · next hne =>
      have := ih ((List.mem_cons.1 h).resolve_left hne)
      omega

theorem Ordered.target_mem {order : List Nat} (ho : Ordered targets order) {vertex target : Nat}
    (hv : vertex ∈ order) (ht : target ∈ targets vertex) : target ∈ order := by
  induction order with
  | nil => exact absurd hv List.not_mem_nil
  | cons first rest ih =>
    rcases List.mem_cons.1 hv with rfl | hv
    · exact List.mem_cons_of_mem _ (ho.2.1 target ht)
    · exact List.mem_cons_of_mem _ (ih ho.2.2 hv)

theorem Ordered.nodup {order : List Nat} (ho : Ordered targets order) : order.Nodup := by
  induction order with
  | nil => exact List.nodup_nil
  | cons first rest ih => exact List.nodup_cons.2 ⟨ho.1, ih ho.2.2⟩

/-- An edge leads to a lower rank. -/
theorem Ordered.rank_lt {order : List Nat} (ho : Ordered targets order) {vertex target : Nat}
    (hv : vertex ∈ order) (ht : target ∈ targets vertex) :
    rank target order < rank vertex order := by
  induction order with
  | nil => exact absurd hv List.not_mem_nil
  | cons first rest ih =>
    obtain ⟨hfirst, htargets, hrest⟩ := ho
    by_cases hvf : vertex = first
    · subst hvf
      have hmem := htargets target ht
      have hne : target ≠ vertex := fun h => hfirst (h ▸ hmem)
      rw [rank, if_neg hne, rank, if_pos rfl]
      exact rank_lt_length hmem
    · have hmem := (List.mem_cons.1 hv).resolve_left hvf
      have hne : target ≠ first := fun h => hfirst (h ▸ hrest.target_mem hmem ht)
      rw [rank, if_neg hne, rank, if_neg hvf]
      exact ih hrest hmem

/-- A graph in which the search meets no cycle has ranks below the number of its vertices. -/
theorem exists_rank_of_find?_eq_none
    (ht : ∀ vertex, ∀ target ∈ targets vertex, target < count)
    (h : find? targets count = none) :
    ∃ rank : Nat → Nat, (∀ vertex < count, rank vertex < count) ∧
      ∀ vertex < count, ∀ target ∈ targets vertex, rank target < rank vertex := by
  rw [find?] at h
  split at h
  · next order horder =>
    have hnil : Ordered targets [] := trivial
    obtain ⟨hprogress, hall⟩ := Progress.fold
      (fun vertex hv done later ho hb hsearch =>
        visit_progress ht (by simp) List.nodup_nil (by simp) (List.mem_range.1 hv) ho hb hsearch)
      hnil (by simp) horder
    have hmem : ∀ vertex < count, vertex ∈ order := fun v hv => hall v (List.mem_range.2 hv)
    refine ⟨fun vertex => rank vertex order, fun vertex hv => ?_, fun vertex hv target hmt => ?_⟩
    · have hlen := length_le_of_nodup hprogress.ordered.nodup hprogress.bounded
      exact Nat.lt_of_lt_of_le (rank_lt_length (hmem vertex hv)) hlen
    · exact hprogress.ordered.rank_lt (hmem vertex hv) hmt
  · cases h

end JsonShape.Cycle
