import JsonShape.Proofs.Lines

/-!
# Proofs: tidy text

Tidying is said here twice more. `condense` does to lines what tidying does to a text; it goes
through the lines in the same way, but what it gives is lines again, so that facts about it are
proved one line at a time. `Condensed` says what is asked of the result, without saying how it is
found: no line is lost, and a run of blank lines is one blank line between two others and nothing at
either end.
-/

namespace JsonShape.Text

/-! ## Lines that are condensed -/

/-- The lines of a text without the white space at their ends. A carriage return in front of a line
feed is white space of that kind. -/
def trimmedLines (text : List Char) : List (List Char) :=
  (text.splitOn '\n').map (List.rdropWhile isBlank)

/-- Lines in which every run of blank lines is shortened: to one between two other lines, and to
none in front of them or behind them. -/
structure Condensed (lines result : List (List Char)) : Prop where
  /-- The lines that are not blank are kept, in their order. -/
  kept : result.filter (· ≠ []) = lines.filter (· ≠ [])
  /-- Between two lines that are not blank and have `count` blank lines between them, there is one
  if `count` is not zero. -/
  separated : ∀ (before after : List (List Char)) (first second : List Char) (count : Nat),
    lines = before ++ first :: (List.replicate count [] ++ second :: after) →
      first ≠ [] → second ≠ [] →
        ∃ before' after',
          result = before' ++ first :: (List.replicate (min count 1) [] ++ second :: after') ∧
            before'.filter (· ≠ []) = before.filter (· ≠ []) ∧
            after'.filter (· ≠ []) = after.filter (· ≠ [])
  /-- The first line is not blank. -/
  begins : result.head? ≠ some []
  /-- The last line is not blank. -/
  ends : result.getLast? ≠ some []

/-- The lines that a tidy text has, with `started` and `pending` as `tidyLines` has them. -/
def condense (started pending : Bool) : List (List Char) → List (List Char)
  | [] => []
  | [] :: rest => condense started started rest
  | line :: rest => (if pending then [[]] else []) ++ line :: condense true false rest

variable {started pending : Bool} {line first second : List Char} {rest after : List (List Char)}

theorem condense_blank (started pending : Bool) (rest : List (List Char)) :
    condense started pending ([] :: rest) = condense started started rest :=
  rfl

theorem condense_cons (h : line ≠ []) (started pending : Bool) (rest : List (List Char)) :
    condense started pending (line :: rest) =
      (if pending then [[]] else []) ++ line :: condense true false rest := by
  rw [condense]
  exact h

/-- Tidying writes the condensed lines. -/
theorem tidyLines_eq (started pending : Bool) (lines : List (List Char)) :
    tidyLines started pending lines = ended (condense started pending (lines.map trimEnd)) := by
  induction lines generalizing started pending with
  | nil => rfl
  | cons line rest ih =>
    rw [tidyLines, List.map_cons]
    split
    · next hblank => rw [hblank, condense_blank, ih]
    · next hkept =>
      rw [condense_cons hkept, ih]
      cases pending <;> simp [ended]

theorem filter_condense (started pending : Bool) (lines : List (List Char)) :
    (condense started pending lines).filter (· ≠ []) = lines.filter (· ≠ []) := by
  induction lines generalizing started pending with
  | nil => rfl
  | cons line rest ih =>
    by_cases h : line = []
    · subst h
      rw [condense_blank, ih]
      rfl
    · rw [condense_cons h, List.filter_append, List.filter_cons, List.filter_cons, ih]
      cases pending <;> rfl

/-- After a line that is not blank it does not matter what came before it. -/
theorem condense_append (h : first ≠ []) (started pending : Bool) (before : List (List Char)) :
    ∃ before', condense started pending (before ++ first :: rest) =
        before' ++ first :: condense true false rest ∧
      before'.filter (· ≠ []) = before.filter (· ≠ []) := by
  induction before generalizing started pending with
  | nil =>
    refine ⟨if pending then [[]] else [], condense_cons h started pending rest, ?_⟩
    cases pending <;> rfl
  | cons line before ih =>
    by_cases hline : line = []
    · subst hline
      exact ih started started
    · obtain ⟨before', hcondensed, hkept⟩ := ih true false
      refine ⟨(if pending then [[]] else []) ++ line :: before', ?_, ?_⟩
      · rw [List.cons_append, condense_cons hline, hcondensed, List.append_assoc,
          List.cons_append]
      · rw [List.filter_append, List.filter_cons, List.filter_cons, hkept]
        cases pending <;> rfl

/-- A run of blank lines becomes one of them. -/
theorem condense_replicate (h : second ≠ []) (count : Nat) :
    condense true false (List.replicate count [] ++ second :: after) =
      List.replicate (min count 1) [] ++ second :: condense true false after := by
  have hpending : ∀ count, condense true true (List.replicate count [] ++ second :: after) =
      [] :: second :: condense true false after := by
    intro count
    induction count with
    | zero => exact condense_cons h true true after
    | succ count ih => rwa [List.replicate_succ, List.cons_append, condense_blank]
  cases count with
  | zero => exact condense_cons h true false after
  | succ count =>
    rw [List.replicate_succ, List.cons_append, condense_blank, hpending, Nat.min_eq_right]
    · rfl
    · omega

theorem head?_condense (lines : List (List Char)) :
    (condense false false lines).head? ≠ some [] := by
  induction lines with
  | nil => nofun
  | cons line rest ih =>
    by_cases h : line = []
    · subst h
      exact ih
    · rw [condense_cons h]
      simpa using h

theorem getLast?_condense (started pending : Bool) (lines : List (List Char)) :
    (condense started pending lines).getLast? ≠ some [] := by
  induction lines generalizing started pending with
  | nil => nofun
  | cons line rest ih =>
    by_cases h : line = []
    · subst h
      exact ih started started
    · rw [condense_cons h, List.getLast?_append, List.getLast?_cons]
      cases hlast : (condense true false rest).getLast? with
      | none => simpa using h
      | some last =>
        have hne : last ≠ [] := fun hnil => ih true false (hnil ▸ hlast)
        simpa using hne

theorem condensed_condense (lines : List (List Char)) :
    Condensed lines (condense false false lines) where
  kept := filter_condense false false lines
  separated := by
    rintro before after first second count rfl hfirst hsecond
    obtain ⟨before', hbefore, hkept⟩ := condense_append hfirst false false before
    refine ⟨before', condense true false after, ?_, hkept, filter_condense true false after⟩
    rw [hbefore, condense_replicate hsecond]
  begins := head?_condense lines
  ends := getLast?_condense false false lines

/-- Condensed lines are not condensed further. A blank line that is due is written before the next
one, and is due again when that is read. -/
theorem condense_condense (h : pending = true → started = true) (lines : List (List Char)) :
    condense started false (condense started pending lines) = condense started pending lines := by
  induction lines generalizing started pending with
  | nil => rfl
  | cons line rest ih =>
    by_cases hline : line = []
    · subst hline
      rw [condense_blank, ih id]
    · have hrest := @ih true false (fun _ => rfl)
      rw [condense_cons hline]
      cases pending with
      | false =>
        rw [if_neg Bool.false_ne_true, List.nil_append, condense_cons hline, hrest]
        rfl
      | true =>
        rw [h rfl, if_pos rfl, List.cons_append, condense_blank, List.nil_append,
          condense_cons hline, hrest]
        rfl

theorem condense_eq_nil {lines : List (List Char)} (h : ∀ line ∈ lines, line = [])
    (started pending : Bool) : condense started pending lines = [] := by
  induction lines generalizing started pending with
  | nil => rfl
  | cons line rest ih =>
    obtain ⟨rfl, hrest⟩ := List.forall_mem_cons.1 h
    exact ih hrest started started

/-- Condensing makes no lines but blank ones. -/
theorem mem_or_nil_of_mem_condense {lines : List (List Char)}
    (h : line ∈ condense started pending lines) : line = [] ∨ line ∈ lines := by
  by_cases hline : line = []
  · exact .inl hline
  · have hmem : line ∈ (condense started pending lines).filter (· ≠ []) :=
      List.mem_filter.2 ⟨h, by simpa using hline⟩
    rw [filter_condense] at hmem
    exact .inr (List.mem_of_mem_filter hmem)

/-! ## Lines by splitting -/

theorem modifyHead_nil_append (lines : List (List Char)) :
    lines.modifyHead (([] : List Char).reverse ++ ·) = lines :=
  congrFun List.modifyHead_id lines

/-- Where lines are condensed, a text may as well be split at its line feeds. Of a line that has
been begun, `opened` is known, in reverse. -/
theorem condense_linesFrom (opened text : List Char) (started pending : Bool) :
    condense started pending ((linesFrom opened text).map trimEnd) =
      condense started pending
        (((text.splitOn '\n').modifyHead (opened.reverse ++ ·)).map trimEnd) := by
  induction text generalizing opened started pending with
  | nil =>
    rw [linesFrom, List.splitOn_nil, List.modifyHead_cons, List.append_nil]
    -- a last line that is empty is no line, and would be blank if it were one
    cases opened with
    | nil => rfl
    | cons c opened => rfl
  | cons c text ih =>
    rw [List.splitOn_cons_eq_if_modifyHead]
    by_cases hc : c = '\n'
    · subst hc
      have hrest (started pending : Bool) : condense started pending ((lines text).map trimEnd) =
          condense started pending ((text.splitOn '\n').map trimEnd) := by
        rw [lines, ih, modifyHead_nil_append]
      rw [linesFrom, if_pos (beq_self_eq_true _), List.modifyHead_cons, List.append_nil,
        List.map_cons, List.map_cons, trimEnd_dropReturn]
      by_cases hline : trimEnd opened.reverse = []
      · rw [hline, condense_blank, condense_blank]
        exact hrest started started
      · rw [condense_cons hline, condense_cons hline]
        exact congrArg _ (congrArg _ (hrest true false))
    · rw [linesFrom, ih, if_neg (by simpa using hc), List.modifyHead_modifyHead]
      · simp [Function.comp_def]
      · exact hc

theorem condense_lines (text : List Char) :
    condense false false ((lines text).map trimEnd) = condense false false (trimmedLines text) := by
  have htrim : List.rdropWhile isBlank = trimEnd := funext fun line =>
    (trimEnd_eq_rdropWhile line).symm
  rw [lines, condense_linesFrom, modifyHead_nil_append, trimmedLines, htrim]

/-- Splitting loses only line feeds. -/
theorem filter_flatten_splitOn {p : Char → Bool} (hp : p '\n' = false) (text : List Char) :
    (text.splitOn '\n').flatten.filter p = text.filter p := by
  induction text with
  | nil => rfl
  | cons c text ih =>
    rw [List.splitOn_cons_eq_if_modifyHead]
    by_cases hc : c = '\n'
    · subst hc
      rw [if_pos (beq_self_eq_true _), List.flatten_cons, List.nil_append, ih,
        List.filter_cons_of_neg (by simp [hp])]
    · obtain ⟨first, rest, hsplit⟩ := List.exists_cons_of_ne_nil (List.splitOn_ne_nil '\n' text)
      rw [if_neg (by simpa using hc)]
      rw [hsplit] at ih ⊢
      rw [List.modifyHead_cons, List.flatten_cons, List.cons_append, List.filter_cons,
        List.filter_cons, ← ih, List.flatten_cons]

/-! ## Tidy texts -/

theorem tidy_eq (text : List Char) :
    tidy text = ended (condense false false (trimmedLines text)) := by
  rw [tidy, tidyLines_eq, condense_lines]

theorem trimEnd_trimEnd (line : List Char) : trimEnd (trimEnd line) = trimEnd line := by
  simp only [trimEnd_eq_rdropWhile, List.rdropWhile_idempotent]

/-- The lines of a tidy text hold no line feeds, and have no white space at their ends. -/
theorem whole_of_mem_condense {text : List Char}
    (h : line ∈ condense false false (trimmedLines text)) : '\n' ∉ line ∧ trimEnd line = line := by
  rw [← condense_lines] at h
  rcases mem_or_nil_of_mem_condense h with rfl | hmem
  · exact ⟨List.not_mem_nil, rfl⟩
  · obtain ⟨original, horiginal, rfl⟩ := List.mem_map.1 hmem
    exact ⟨notMem_trimEnd (notMem_of_mem_lines horiginal), trimEnd_trimEnd original⟩

/-- The lines of a tidy text are the condensed lines of the text. -/
theorem lines_tidy (text : List Char) :
    lines (tidy text) = condense false false (trimmedLines text) := by
  rw [tidy_eq, lines_ended fun line h => (whole_of_mem_condense h).1]
  refine (List.map_congr_left fun line h => ?_).trans (List.map_id _)
  rw [← (whole_of_mem_condense h).2, dropReturn_trimEnd]
  rfl

theorem map_trimEnd_lines_tidy (text : List Char) :
    (lines (tidy text)).map trimEnd = lines (tidy text) := by
  rw [lines_tidy]
  exact (List.map_congr_left fun line h => (whole_of_mem_condense h).2).trans (List.map_id _)

/-- A tidy text stays as it is. -/
theorem tidy_tidy (text : List Char) : tidy (tidy text) = tidy text := by
  have hcondensed : condense false false (lines (tidy text)) = lines (tidy text) := by
    rw [lines_tidy]
    exact condense_condense id _
  calc
    tidy (tidy text) = ended (condense false false ((lines (tidy text)).map trimEnd)) :=
      tidyLines_eq false false _
    _ = ended (lines (tidy text)) := by rw [map_trimEnd_lines_tidy, hcondensed]
    _ = tidy text := by rw [lines_tidy, ← tidy_eq]

/-- The characters that are not white space. -/
def visible (text : List Char) : List Char := text.filter fun c => !isBlank c

theorem visible_flatten (lines : List (List Char)) :
    visible lines.flatten = lines.flatMap visible := by
  rw [visible, List.filter_flatten]
  rfl

theorem visible_ended (lines : List (List Char)) :
    visible (ended lines) = lines.flatMap visible := by
  rw [visible, ended, List.filter_flatMap]
  refine List.flatMap_congr fun line _ => ?_
  rw [List.filter_append]
  exact List.append_nil _

theorem visible_trimEnd (line : List Char) : visible (trimEnd line) = visible line := by
  have hdropped : visible (line.rtakeWhile isBlank) = [] := by
    refine List.filter_eq_nil_iff.2 fun c hc => ?_
    simp [List.mem_rtakeWhile_imp hc]
  calc
    visible (trimEnd line) = visible (line.rdropWhile isBlank) ++ [] := by
      rw [trimEnd_eq_rdropWhile, List.append_nil]
    _ = visible (line.rdropWhile isBlank ++ line.rtakeWhile isBlank) := by
      rw [← hdropped]
      exact (List.filter_append _ _).symm
    _ = visible line := by rw [List.rdropWhile_append_rtakeWhile]

/-- Blank lines show nothing. -/
theorem flatMap_visible_filter (lines : List (List Char)) :
    (lines.filter (· ≠ [])).flatMap visible = lines.flatMap visible := by
  rw [← visible_flatten, ← visible_flatten, List.flatten_filter_ne_nil]

/-- Tidying loses only white space. -/
theorem visible_tidy (text : List Char) : visible (tidy text) = visible text :=
  calc
    visible (tidy text) = (condense false false (trimmedLines text)).flatMap visible := by
      rw [tidy_eq, visible_ended]
    _ = (trimmedLines text).flatMap visible := by
      rw [← flatMap_visible_filter, filter_condense, flatMap_visible_filter]
    _ = (text.splitOn '\n').flatMap visible := by
      rw [trimmedLines, List.flatMap_map]
      refine List.flatMap_congr fun line _ => ?_
      rw [← trimEnd_eq_rdropWhile, visible_trimEnd]
    _ = visible text := by
      rw [← visible_flatten]
      exact filter_flatten_splitOn rfl text

/-- What tidying makes of a text. The lines are condensed, each is ended by a line feed, and nothing
is left of a text that has only blank lines. So all characters are kept that are not white space,
and a second tidying changes nothing. -/
theorem tidy_condenses (text : List Char) :
    tidy text = ended (lines (tidy text)) ∧
      Condensed (trimmedLines text) (lines (tidy text)) ∧
      ((∀ line ∈ trimmedLines text, line = []) → tidy text = []) ∧
      visible (tidy text) = visible text ∧
      tidy (tidy text) = tidy text := by
  refine ⟨?_, ?_, fun hblank => ?_, visible_tidy text, tidy_tidy text⟩
  · rw [lines_tidy, ← tidy_eq]
  · rw [lines_tidy]
    exact condensed_condense _
  · rw [tidy_eq, condense_eq_nil hblank]
    rfl

/-- A carriage return inside a line stays, and one at its end goes. -/
example : tidy "\n a\rb \r\n\t\n\nc\u3000\n\n".toList = " a\rb\n\nc\n".toList := by decide

end JsonShape.Text
