import Mathlib.Data.List.Forall2
import JsonShape.Registry.Failure

/-!
# Proofs: results

What is known of the result of a computation in parts, which are run one after the other until one
fails.

Of the outcome of a check or a rebuilding three things are said. It *settles* another outcome if it
is not stuck and the other is the same. It *delivers* something if a success has the described
result and a failure means that a statement does not hold; a test that delivers the statement itself
*decides* it. A stuck outcome delivers anything.
-/

namespace JsonShape

section Parts

variable {ε α β : Type}

@[simp]
theorem ok_bind (a : α) (f : α → Except ε β) : (.ok a >>= f : Except ε β) = f a :=
  rfl

@[simp]
theorem error_bind (e : ε) (f : α → Except ε β) : (.error e >>= f : Except ε β) = .error e :=
  rfl

@[simp]
theorem pure_eq_ok (a : α) : (pure a : Except ε α) = .ok a :=
  rfl

/-- A computation in two steps has a result only if both steps have. -/
theorem exists_of_bind_eq_ok {x : Except ε α} {f : α → Except ε β} {b : β}
    (h : x >>= f = .ok b) : ∃ a, x = .ok a ∧ f a = .ok b := by
  cases x with
  | error e => cases h
  | ok a => exact ⟨a, rfl, h⟩

theorem bind_eq_ok_iff {x : Except ε α} {f : α → Except ε β} {b : β} :
    x >>= f = .ok b ↔ ∃ a, x = .ok a ∧ f a = .ok b := by
  refine ⟨exists_of_bind_eq_ok, ?_⟩
  rintro ⟨a, rfl, h⟩
  exact h

/-- A computation in two steps fails in one of them. -/
theorem eq_error_of_bind_eq_error {x : Except ε α} {f : α → Except ε β} {e : ε}
    (h : x >>= f = .error e) : x = .error e ∨ ∃ a, x = .ok a ∧ f a = .error e := by
  cases x with
  | error other =>
    cases h
    exact .inl rfl
  | ok a => exact .inr ⟨a, rfl, h⟩

theorem ok_of_toOption_eq_some {x : Except ε α} {a : α} (h : x.toOption = some a) : x = .ok a := by
  cases x with
  | error e => cases h
  | ok b =>
    cases h
    rfl

/-- A list that is gone through step by step fails at one of its items. -/
theorem exists_of_foldlM_eq_error {f : β → α → Except ε β} {xs : List α} {b : β} {e : ε}
    (h : xs.foldlM f b = .error e) : ∃ x ∈ xs, ∃ b', f b' x = .error e := by
  induction xs generalizing b with
  | nil => cases h
  | cons x xs ih =>
    rw [List.foldlM_cons] at h
    rcases eq_error_of_bind_eq_error h with hfirst | ⟨b', -, hrest⟩
    · exact ⟨x, List.mem_cons_self, b, hfirst⟩
    · obtain ⟨x', hmem, b'', hfail⟩ := ih hrest
      exact ⟨x', List.mem_cons_of_mem _ hmem, b'', hfail⟩

/-- Tests that are run on a list one after the other fail at the first item that does not pass. -/
theorem exists_of_forM_eq_error {f : α → Except ε Unit} {xs : List α} {e : ε}
    (h : xs.forM f = .error e) : ∃ before x after, xs = before ++ x :: after ∧
      (∀ y ∈ before, f y = .ok ()) ∧ f x = .error e := by
  induction xs with
  | nil => cases h
  | cons x xs ih =>
    rw [List.forM] at h
    rcases eq_error_of_bind_eq_error h with hfirst | ⟨⟨⟩, hpassed, hrest⟩
    · exact ⟨[], x, xs, rfl, List.forall_mem_nil _, hfirst⟩
    · obtain ⟨before, y, after, rfl, hbefore, hfail⟩ := ih hrest
      exact ⟨x :: before, y, after, rfl, List.forall_mem_cons.2 ⟨hpassed, hbefore⟩, hfail⟩

/-- A list whose items are computed one after the other fails at the first item that cannot be. -/
theorem exists_of_mapM_eq_error {f : α → Except ε β} {xs : List α} {e : ε}
    (h : xs.mapM f = .error e) : ∃ before x after, xs = before ++ x :: after ∧
      (∀ y ∈ before, ∃ z, f y = .ok z) ∧ f x = .error e := by
  induction xs with
  | nil => cases h
  | cons x xs ih =>
    rw [List.mapM_cons] at h
    rcases eq_error_of_bind_eq_error h with hfirst | ⟨z, hz, h⟩
    · exact ⟨[], x, xs, rfl, List.forall_mem_nil _, hfirst⟩
    · rcases eq_error_of_bind_eq_error h with hrest | ⟨zs, -, hdone⟩
      · obtain ⟨before, y, after, rfl, hbefore, hfail⟩ := ih hrest
        exact ⟨x :: before, y, after, rfl, List.forall_mem_cons.2 ⟨⟨z, hz⟩, hbefore⟩, hfail⟩
      · cases hdone

/-- A list is computed item by item. -/
theorem forall₂_of_mapM_eq_ok {f : α → Except ε β} {xs : List α} {ys : List β}
    (h : xs.mapM f = .ok ys) : List.Forall₂ (fun x y => f x = .ok y) xs ys := by
  induction xs generalizing ys with
  | nil =>
    cases h
    exact .nil
  | cons x xs ih =>
    rw [List.mapM_cons] at h
    obtain ⟨y, hy, h⟩ := exists_of_bind_eq_ok h
    obtain ⟨zs, hzs, h⟩ := exists_of_bind_eq_ok h
    cases h
    exact .cons hy (ih hzs)

theorem mapM_eq_ok_iff {f : α → Except ε β} {xs : List α} {ys : List β} :
    xs.mapM f = .ok ys ↔ List.Forall₂ (fun x y => f x = .ok y) xs ys := by
  refine ⟨forall₂_of_mapM_eq_ok, fun h => ?_⟩
  induction h with
  | nil => rfl
  | cons hy _ ih =>
    rw [List.mapM_cons, hy, ok_bind, ih]
    rfl

end Parts

namespace Outcome

variable {α β : Type} {path : List String} {problem : Problem} {value : Option Json}

/-! ## Settling -/

/-- The outcome is not stuck, and the other one is the same. -/
def Settles (outcome other : Outcome α) : Prop := outcome ≠ .error .stuck ∧ other = outcome

theorem settles_ok (x : α) : Settles (.ok x) (.ok x) :=
  ⟨nofun, rfl⟩

theorem settles_failed (failure : Failure) :
    Settles (.error (.failed failure) : Outcome α) (.error (.failed failure)) :=
  ⟨nofun, rfl⟩

theorem settles_require {ok : Bool} :
    (require ok path problem value).Settles (require ok path problem value) := by
  cases ok with
  | true => exact settles_ok ()
  | false => exact settles_failed _

theorem Settles.bind {first first' : Outcome α} {next next' : α → Outcome β}
    (hfirst : first.Settles first') (hnext : ∀ x, (next x).Settles (next' x)) :
    (first >>= next).Settles (first' >>= next') := by
  obtain ⟨hne, rfl⟩ := hfirst
  rcases first' with (failure | -) | x
  · exact settles_failed failure
  · exact absurd rfl hne
  · exact hnext x

theorem settles_forM {f g : α → Outcome Unit} {xs : List α}
    (h : ∀ x ∈ xs, (f x).Settles (g x)) : (xs.forM f : Outcome Unit).Settles (xs.forM g) := by
  induction xs with
  | nil => exact settles_ok ()
  | cons x xs ih =>
    obtain ⟨hfirst, hrest⟩ := List.forall_mem_cons.1 h
    rw [List.forM, List.forM]
    exact hfirst.bind fun _ => ih hrest

theorem settles_mapM {f g : α → Outcome β} {xs : List α}
    (h : ∀ x ∈ xs, (f x).Settles (g x)) : (xs.mapM f : Outcome (List β)).Settles (xs.mapM g) := by
  induction xs with
  | nil => exact settles_ok []
  | cons x xs ih =>
    obtain ⟨hfirst, hrest⟩ := List.forall_mem_cons.1 h
    rw [List.mapM_cons, List.mapM_cons]
    refine hfirst.bind fun y => ?_
    exact (ih hrest).bind fun ys => settles_ok _

/-- What settles another outcome has a result. -/
theorem Settles.exists_result {outcome other : Outcome α} (h : outcome.Settles other) :
    ∃ result : Except Failure α, outcome = result.mapError .failed := by
  rcases outcome with (failure | -) | x
  · exact ⟨.error failure, rfl⟩
  · exact absurd rfl h.1
  · exact ⟨.ok x, rfl⟩

/-- A result is not changed by saying that a failure is one. -/
theorem mapError_failed_inj {x y : Except Failure α}
    (h : x.mapError Refusal.failed = y.mapError Refusal.failed) : x = y := by
  cases x <;> cases y <;> cases h <;> rfl

/-! ## Delivering -/

/-- A success has the described result, and a failure means that the statement does not hold. -/
def Delivers (outcome : Outcome α) (p : Prop) (result : α → Prop) : Prop :=
  match outcome with
  | .ok x => result x
  | .error (.failed _) => ¬p
  | .error .stuck => True

theorem Delivers.imp {outcome : Outcome α} {p p' : Prop} {result result' : α → Prop}
    (h : outcome.Delivers p result) (hp : p' → p) (hresult : ∀ x, result x → result' x) :
    outcome.Delivers p' result' := by
  rcases outcome with (failure | -) | x
  · exact fun hp' => h (hp hp')
  · trivial
  · exact hresult x h

theorem Delivers.mono {outcome : Outcome α} {p p' : Prop} {result : α → Prop}
    (h : outcome.Delivers p result) (hp : p' → p) : outcome.Delivers p' result :=
  h.imp hp fun _ hx => hx

theorem delivers_fail {p : Prop} {result : α → Prop} (h : ¬p) :
    (fail path problem value : Outcome α).Delivers p result :=
  h

theorem Delivers.bind {first : Outcome α} {next : α → Outcome β} {p : Prop} {middle : α → Prop}
    {result : β → Prop} (hfirst : first.Delivers p middle)
    (hnext : ∀ x, middle x → (next x).Delivers p result) : (first >>= next).Delivers p result := by
  rcases first with (failure | -) | x
  · exact hfirst
  · trivial
  · exact hnext x hfirst

/-- A list delivers what its items do. -/
theorem delivers_mapM {f : α → Outcome β} {xs : List α} {p : α → Prop} {result : α → β → Prop}
    (h : ∀ x ∈ xs, (f x).Delivers (p x) (result x)) :
    (xs.mapM f).Delivers (∀ x ∈ xs, p x)
      fun ys => xs.length = ys.length ∧ ∀ pair ∈ xs.zip ys, result pair.1 pair.2 := by
  induction xs with
  | nil => exact ⟨rfl, by simp⟩
  | cons x xs ih =>
    rw [List.mapM_cons]
    have hfirst := h x List.mem_cons_self
    have hrest := ih fun x' hx' => h x' (List.mem_cons_of_mem _ hx')
    refine (hfirst.mono fun hall => hall x List.mem_cons_self).bind fun y hy => ?_
    refine (hrest.mono fun hall => (List.forall_mem_cons.1 hall).2).bind fun ys hys => ?_
    refine ⟨congrArg (· + 1) hys.1, ?_⟩
    rw [List.zip_cons_cons, List.forall_mem_cons]
    exact ⟨hy, hys.2⟩

/-! ## Deciding -/

/-- A success means that the statement holds, and a failure that it does not. -/
abbrev Decides (outcome : Outcome Unit) (p : Prop) : Prop := outcome.Delivers p fun _ => p

theorem Decides.congr {outcome : Outcome Unit} {p q : Prop} (h : outcome.Decides p) (hpq : p ↔ q) :
    outcome.Decides q :=
  h.imp hpq.2 fun _ => hpq.1

theorem Decides.of_ok {outcome : Outcome Unit} {p : Prop} (h : outcome.Decides p)
    (hok : outcome = .ok ()) : p := by
  rw [hok] at h
  exact h

theorem Decides.not_of_failed {outcome : Outcome Unit} {p : Prop} {failure : Failure}
    (h : outcome.Decides p) (hfailed : outcome = .error (.failed failure)) : ¬p := by
  rw [hfailed] at h
  exact h

theorem decides_require {ok : Bool} {p : Prop} (h : ok = true ↔ p) :
    (require ok path problem value).Decides p := by
  cases ok with
  | true => exact h.1 rfl
  | false => exact delivers_fail fun hp => Bool.false_ne_true (h.2 hp)

/-- A list of tests decides whether all of them pass. -/
theorem decides_forM {f : α → Outcome Unit} {xs : List α} {p : α → Prop}
    (h : ∀ x ∈ xs, (f x).Decides (p x)) : (xs.forM f : Outcome Unit).Decides (∀ x ∈ xs, p x) := by
  induction xs with
  | nil => exact List.forall_mem_nil p
  | cons x xs ih =>
    obtain ⟨hfirst, hrest⟩ := List.forall_mem_cons.1 h
    rw [List.forM]
    refine (hfirst.mono fun hall => hall x List.mem_cons_self).bind fun _ hx => ?_
    refine (ih hrest).congr ?_
    rw [List.forall_mem_cons]
    exact ⟨fun hxs => ⟨hx, hxs⟩, And.right⟩

end Outcome

end JsonShape
