import Mathlib.Data.List.Zip

/-!
# Proofs: items in pairs

Two lists of one length stand side by side: each item of the one has a partner in the other. Arrays
are compared in this way item by item, and shapes member by member and property by property.
-/

namespace JsonShape

variable {α β γ δ : Type} {items items' : List α} {news news' : List β}

/-- Of two lists of one length every item has a partner in the other. -/
theorem exists_of_mem_left {old : α} (hlength : items.length = news.length) (hold : old ∈ items) :
    ∃ new, new ∈ news ∧ (old, new) ∈ items.zip news := by
  rw [← List.map_fst_zip (Nat.le_of_eq hlength)] at hold
  obtain ⟨⟨old, new⟩, hpair, rfl⟩ := List.mem_map.1 hold
  exact ⟨new, (List.of_mem_zip hpair).2, hpair⟩

theorem exists_of_mem_right {new : β} (hlength : items.length = news.length) (hnew : new ∈ news) :
    ∃ old, old ∈ items ∧ (old, new) ∈ items.zip news := by
  rw [← List.map_snd_zip (Nat.le_of_eq hlength.symm)] at hnew
  obtain ⟨⟨old, new⟩, hpair, rfl⟩ := List.mem_map.1 hnew
  exact ⟨old, (List.of_mem_zip hpair).1, hpair⟩

/-- The pairs can be read in the other order. -/
theorem mem_zip_swap {pair : α × β} (h : pair ∈ items.zip news) : pair.swap ∈ news.zip items := by
  rw [← List.zip_swap]
  exact List.mem_map.2 ⟨pair, h, rfl⟩

/-- Two lists that stand beside a third one: a pair of their items stands beside an item of it. -/
theorem exists_of_mem_zip {others : List γ} (hlength : items.length = news.length)
    {pair : β × γ} (hpair : pair ∈ news.zip others) :
    ∃ item, (item, pair.1) ∈ items.zip news ∧ (item, pair.2) ∈ items.zip others := by
  obtain ⟨place, hplace⟩ := List.getElem?_of_mem hpair
  obtain ⟨hnew, hother⟩ := List.getElem?_zip_eq_some.1 hplace
  have hlt : place < items.length := hlength ▸ (List.getElem?_eq_some_iff.1 hnew).1
  have hitem : items[place]? = some items[place] := List.getElem?_eq_getElem hlt
  refine ⟨items[place], ?_, ?_⟩
  · exact List.mem_of_getElem? (List.getElem?_zip_eq_some.2 ⟨hitem, hnew⟩)
  · exact List.mem_of_getElem? (List.getElem?_zip_eq_some.2 ⟨hitem, hother⟩)

theorem eq_of_mem_zip_self {pair : α × α} (h : pair ∈ items.zip items) : pair.1 = pair.2 := by
  rw [List.zip_eq_zipWith, List.zipWith_self] at h
  obtain ⟨item, -, rfl⟩ := List.mem_map.1 h
  rfl

/-- Two lists look the same if the items of every pair do. -/
theorem map_eq_map_of_zip {f : α → γ} {g : β → γ} (hlength : items.length = news.length)
    (h : ∀ pair ∈ items.zip news, f pair.1 = g pair.2) : items.map f = news.map g :=
  calc
    items.map f = (items.zip news).map (f ∘ Prod.fst) := by
      rw [← List.map_map, List.map_fst_zip (Nat.le_of_eq hlength)]
    _ = (items.zip news).map (g ∘ Prod.snd) := List.map_congr_left h
    _ = news.map g := by rw [← List.map_map, List.map_snd_zip (Nat.le_of_eq hlength.symm)]

/-- Lists of one length are the same if the items of every pair are. -/
theorem eq_of_zip {others : List α} (hlength : items.length = others.length)
    (h : ∀ pair ∈ items.zip others, pair.1 = pair.2) : items = others := by
  have hmap : items.map id = others.map id := map_eq_map_of_zip hlength h
  rwa [List.map_id, List.map_id] at hmap

/-- If two lists look the same through `f`, then the lists beside them look the same through `g`,
provided that the pairs hand this on. -/
theorem map_eq_of_zip {f : α → γ} {g : β → δ} (hlength : items.length = news.length)
    (hlength' : items'.length = news'.length) (hsame : items.map f = items'.map f)
    (h : ∀ pair ∈ items.zip news, ∀ pair' ∈ items'.zip news',
      f pair.1 = f pair'.1 → g pair.2 = g pair'.2) : news.map g = news'.map g := by
  induction items generalizing items' news news' with
  | nil =>
    have hitems' : items' = [] := List.map_eq_nil_iff.1 hsame.symm
    subst hitems'
    rw [List.length_eq_zero_iff.1 hlength.symm, List.length_eq_zero_iff.1 hlength'.symm]
  | cons item rest ih =>
    obtain ⟨item', rest', rfl, hitem, hrest⟩ := List.map_eq_cons_iff.1 hsame.symm
    obtain ⟨first, others, rfl⟩ := List.exists_cons_of_length_eq_add_one hlength.symm
    obtain ⟨first', others', rfl⟩ := List.exists_cons_of_length_eq_add_one hlength'.symm
    have hfirst : g first = g first' :=
      h (item, first) List.mem_cons_self (item', first') List.mem_cons_self hitem.symm
    have hothers : others.map g = others'.map g := by
      refine ih (Nat.succ.inj hlength) (Nat.succ.inj hlength') hrest.symm ?_
      intro pair hpair pair' hpair'
      exact h pair (List.mem_cons_of_mem _ hpair) pair' (List.mem_cons_of_mem _ hpair')
    rw [List.map_cons, List.map_cons, hfirst, hothers]

/-- Where the one list is split at an item, so is the other at the partner. -/
theorem exists_split_of_zip {before after : List β} {new : β}
    (hlength : items.length = (before ++ new :: after).length) :
    ∃ before' old after', items = before' ++ old :: after' ∧
      (old, new) ∈ items.zip (before ++ new :: after) ∧
      ∀ item ∈ before', ∃ other ∈ before, (item, other) ∈ items.zip (before ++ new :: after) := by
  induction before generalizing items with
  | nil =>
    obtain ⟨old, after', rfl⟩ := List.exists_cons_of_length_eq_add_one hlength
    exact ⟨[], old, after', rfl, List.mem_cons_self, List.forall_mem_nil _⟩
  | cons first rest ih =>
    obtain ⟨item, others, rfl⟩ := List.exists_cons_of_length_eq_add_one hlength
    obtain ⟨before', old, after', rfl, hpair, hbefore'⟩ := ih (Nat.succ.inj hlength)
    refine ⟨item :: before', old, after', rfl, List.mem_cons_of_mem _ hpair, ?_⟩
    refine List.forall_mem_cons.2 ⟨⟨first, List.mem_cons_self, List.mem_cons_self⟩, ?_⟩
    intro other hother
    obtain ⟨partner, hpartner, hzip⟩ := hbefore' other hother
    exact ⟨partner, List.mem_cons_of_mem _ hpartner, List.mem_cons_of_mem _ hzip⟩

end JsonShape
