import Mathlib.Data.List.Chain
import Mathlib.Data.List.Nodup
import Mathlib.Data.List.TakeWhile
import Mathlib.Logic.Relation
import JsonShape.Proofs.Search

/-!
# Proofs: circuits

What the search for cycles reports is a cycle: a closed walk along edges that meets no vertex twice.
Together with the ranks of a graph in which nothing is found, this makes the search decide whether
the graph has a directed cycle.
-/

namespace JsonShape.Cycle

open Relation

variable {targets : Nat → List Nat} {count budget vertex : Nat} {path done cycle : List Nat}

/-- There is an edge from one vertex to another. -/
def Edge (targets : Nat → List Nat) (vertex target : Nat) : Prop := target ∈ targets vertex

/-- A closed walk along edges that meets no vertex twice. Its first vertex is repeated at the end. -/
def Circuit (targets : Nat → List Nat) (cycle : List Nat) : Prop :=
  ∃ vertex walk, cycle = vertex :: (walk ++ [vertex]) ∧ (vertex :: walk).Nodup ∧
    cycle.IsChain (Edge targets)

/-- A path is cut at the first place where a vertex stands. -/
theorem exists_takeWhile_append (h : vertex ∈ path) :
    ∃ rest, path = path.takeWhile (· != vertex) ++ vertex :: rest := by
  induction path with
  | nil => exact absurd h List.not_mem_nil
  | cons first others ih =>
    by_cases hfirst : first = vertex
    · subst hfirst
      exact ⟨others, by simp⟩
    · have hmem : vertex ∈ others := (List.mem_cons.1 h).resolve_left (Ne.symm hfirst)
      obtain ⟨rest, hrest⟩ := ih hmem
      refine ⟨rest, ?_⟩
      rw [List.takeWhile_cons_of_pos (by simpa using hfirst), List.cons_append, ← hrest]

/-- An edge back to a vertex on the path closes a circuit. The path is walked backwards. -/
theorem circuit_closing (hwalk : (vertex :: path).IsChain fun a b => Edge targets b a)
    (hn : path.Nodup) (hp : vertex ∈ path) : Circuit targets (closing vertex path) := by
  obtain ⟨rest, hrest⟩ := exists_takeWhile_append hp
  have hfresh : vertex ∉ path.takeWhile (· != vertex) := by
    intro hmem
    simpa using List.mem_takeWhile_imp hmem
  have hsub : (path.takeWhile (· != vertex)).Nodup := hn.sublist (List.takeWhile_sublist _)
  refine ⟨vertex, (path.takeWhile (· != vertex)).reverse, rfl, ?_, ?_⟩
  · rw [List.nodup_cons, List.mem_reverse, List.nodup_reverse]
    exact ⟨hfresh, hsub⟩
  · have hloop : (vertex :: (path.takeWhile (· != vertex) ++ [vertex])).IsChain
        fun a b => Edge targets b a := by
      have hsplit : vertex :: path =
          (vertex :: (path.takeWhile (· != vertex) ++ [vertex])) ++ rest := by
        rw [List.cons_append, List.append_assoc, List.singleton_append, ← hrest]
      rw [hsplit] at hwalk
      exact hwalk.left_of_append
    have hback : closing vertex path =
        (vertex :: (path.takeWhile (· != vertex) ++ [vertex])).reverse := by
      simp [closing]
    rw [hback]
    exact List.isChain_reverse.2 hloop

/-- The search below a vertex ends with an error only at a circuit. -/
theorem visit_circuit (hwalk : (vertex :: path).IsChain fun a b => Edge targets b a)
    (hn : path.Nodup) (h : visit targets budget path done vertex = .error cycle) :
    Circuit targets cycle := by
  -- the path to the vertex is the invariant: it runs along edges and meets no vertex twice
  induction budget generalizing path done vertex with
  | zero => cases h
  | succ budget ih =>
    rw [visit] at h
    split at h
    · cases h
    · split at h
      · next hpath =>
        cases h
        exact circuit_closing hwalk hn hpath
      · next hpath =>
        rcases eq_error_of_bind_eq_error h with hbelow | ⟨below, -, hdone⟩
        · obtain ⟨target, htarget, done', herror⟩ := exists_of_foldlM_eq_error hbelow
          exact ih (List.isChain_cons_cons.2 ⟨htarget, hwalk⟩) (List.nodup_cons.2 ⟨hpath, hn⟩)
            herror
        · cases hdone

theorem circuit_of_find?_eq_some (h : find? targets count = some cycle) :
    Circuit targets cycle := by
  rw [find?] at h
  split at h
  · cases h
  · next herror =>
    cases h
    obtain ⟨vertex, -, done, hvisit⟩ := exists_of_foldlM_eq_error herror
    exact visit_circuit (List.isChain_singleton vertex) List.nodup_nil hvisit

/-- Along a circuit its first vertex leads back to itself. -/
theorem Circuit.exists_transGen (h : Circuit targets cycle) :
    ∃ vertex, TransGen (Edge targets) vertex vertex := by
  obtain ⟨vertex, walk, rfl, -, hchain⟩ := h
  have hpairs := (hchain.imp fun _ _ hedge => TransGen.single hedge).pairwise
  refine ⟨vertex, List.rel_of_pairwise_cons hpairs ?_⟩
  exact List.mem_append_right _ List.mem_cons_self

/-- The search finds nothing exactly in a graph without directed cycles. -/
theorem find?_eq_none_iff (ht : ∀ vertex, ∀ target ∈ targets vertex, target < count) :
    find? targets count = none ↔ ∀ vertex, ¬TransGen (Edge targets) vertex vertex := by
  constructor
  · intro hnone vertex hcycle
    obtain ⟨rank, -, hrank⟩ := exists_rank_of_find?_eq_none ht hnone
    have hbound : ∀ a b, TransGen (Edge targets) a b → b < count := by
      intro a b hab
      cases hab with
      | single hedge => exact ht _ _ hedge
      | tail _ hedge => exact ht _ _ hedge
    have hfalls : ∀ b, TransGen (Edge targets) vertex b → rank b < rank vertex := by
      intro b hb
      induction hb with
      | single hedge => exact hrank vertex (hbound _ _ hcycle) _ hedge
      | tail hprefix hedge ih => exact Nat.lt_trans (hrank _ (hbound _ _ hprefix) _ hedge) ih
    exact Nat.lt_irrefl _ (hfalls vertex hcycle)
  · intro hacyclic
    cases hfind : find? targets count with
    | none => rfl
    | some cycle =>
      obtain ⟨vertex, hvertex⟩ := (circuit_of_find?_eq_some hfind).exists_transGen
      exact absurd hvertex (hacyclic vertex)

end JsonShape.Cycle
