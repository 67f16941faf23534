import Mathlib.Data.List.DropRight
import JsonShape.Text.Tidy

/-!
# Proofs: lines

A text that is put together line by line falls apart into the same lines again, as long as no line
holds a line feed. Only a carriage return at the end of a line is lost; it belongs to the line
ending.

Tidying treats every line by itself: the lines of the tidy text that are not empty are the trimmed
lines of the text that are not empty, in their order. So whatever is said of the lines of a text one
by one, and holds of no empty line, can be read off the tidy text as well.
-/

namespace JsonShape.Text

variable {text line : List Char} {parts : List (List Char)} {c : Char}

/-! ## The ends of lines -/

theorem trimEnd_concat (text : List Char) (c : Char) :
    trimEnd (text ++ [c]) = if isBlank c then trimEnd text else text ++ [c] := by
  induction text with
  | nil => rfl
  | cons first rest ih =>
    rw [List.cons_append, trimEnd, ih]
    by_cases hc : isBlank c
    · rw [if_pos hc, if_pos hc, trimEnd]
    · obtain ⟨d, others, hcons⟩ := List.exists_cons_of_ne_nil (List.concat_ne_nil c rest)
      rw [if_neg hc, if_neg hc, hcons]

/-- Trimming drops blank characters from the end for as long as there are any. -/
theorem trimEnd_eq_rdropWhile (text : List Char) : trimEnd text = text.rdropWhile isBlank := by
  induction text using List.reverseRecOn with
  | nil => rfl
  | append_singleton text c ih => rw [trimEnd_concat, List.rdropWhile_concat, ih]

/-- A character that is not white space stays, whatever comes after it. -/
theorem trimEnd_cons (h : isBlank c = false) (rest : List Char) :
    trimEnd (c :: rest) = c :: trimEnd rest := by
  rw [trimEnd]
  split
  · next hrest => rw [hrest, h, if_neg Bool.false_ne_true]
  · rfl

theorem dropReturn_cons (h : c ≠ '\r') (rest : List Char) :
    dropReturn (c :: rest) = c :: dropReturn rest := by
  rw [dropReturn]
  rintro rfl _
  exact h rfl

theorem dropReturn_concat (text : List Char) (c : Char) :
    dropReturn (text ++ [c]) = if c = '\r' then text else text ++ [c] := by
  induction text with
  | nil =>
    split
    · next hc => rw [hc]; rfl
    · next hc => simp [dropReturn, hc]
  | cons first rest ih =>
    have hne : rest ++ [c] ≠ [] := by simp
    rw [List.cons_append, dropReturn, ih]
    · split <;> rfl
    · intro _ hnil
      exact hne hnil

/-- A carriage return at the end of a line is white space there. -/
theorem trimEnd_dropReturn (line : List Char) : trimEnd (dropReturn line) = trimEnd line := by
  induction line using List.reverseRecOn with
  | nil => rfl
  | append_singleton line c _ =>
    rw [dropReturn_concat]
    split
    · next hc =>
      subst hc
      rw [trimEnd_concat]
      rfl
    · rfl

theorem dropReturn_trimEnd (line : List Char) : dropReturn (trimEnd line) = trimEnd line := by
  induction line using List.reverseRecOn with
  | nil => rfl
  | append_singleton line c ih =>
    rw [trimEnd_concat]
    split
    · exact ih
    · next hc =>
      have hreturn : c ≠ '\r' := by
        rintro rfl
        exact hc rfl
      rw [dropReturn_concat, if_neg hreturn]

theorem notMem_dropReturn (h : c ∉ line) : c ∉ dropReturn line := by
  induction line using List.reverseRecOn with
  | nil => exact h
  | append_singleton line last _ =>
    rw [dropReturn_concat]
    split
    · exact fun hc => h (List.mem_append_left _ hc)
    · exact h

theorem notMem_trimEnd (h : c ∉ line) : c ∉ trimEnd line := by
  rw [trimEnd_eq_rdropWhile]
  exact fun hc => h ((List.rdropWhile_prefix isBlank line).subset hc)

/-! ## Falling apart into lines -/

/-- The text of lines, each of which is ended by a line feed. -/
def ended (lines : List (List Char)) : List Char := lines.flatMap fun line => line ++ ['\n']

theorem linesFrom_append (h : '\n' ∉ line) (opened rest : List Char) :
    linesFrom opened (line ++ '\n' :: rest) =
      dropReturn (opened.reverse ++ line) :: lines rest := by
  induction line generalizing opened with
  | nil =>
    rw [List.nil_append, linesFrom, List.append_nil]
    rfl
  | cons c line ih =>
    obtain ⟨hc, hline⟩ := not_or.1 (List.mem_cons.not.1 h)
    rw [List.cons_append, linesFrom, ih hline]
    · simp
    · exact fun heq => hc heq.symm

/-- A line is taken off the front of a text. -/
theorem lines_append (h : '\n' ∉ line) (rest : List Char) :
    lines (line ++ '\n' :: rest) = dropReturn line :: lines rest :=
  linesFrom_append h [] rest

theorem lines_ended (h : ∀ line ∈ parts, '\n' ∉ line) :
    lines (ended parts) = parts.map dropReturn := by
  induction parts with
  | nil => rfl
  | cons line rest ih =>
    obtain ⟨hline, hrest⟩ := List.forall_mem_cons.1 h
    have hended : ended (line :: rest) = line ++ '\n' :: ended rest := by simp [ended]
    rw [hended, lines_append hline, ih hrest, List.map_cons]

theorem notMem_of_mem_linesFrom {opened : List Char} (hopened : '\n' ∉ opened)
    (h : line ∈ linesFrom opened text) : '\n' ∉ line := by
  have hreverse : '\n' ∉ opened.reverse := mt List.mem_reverse.1 hopened
  induction text generalizing opened with
  | nil =>
    rw [linesFrom] at h
    split at h
    · exact absurd h List.not_mem_nil
    · rw [List.mem_singleton.1 h]
      exact hreverse
  | cons c rest ih =>
    by_cases hc : c = '\n'
    · subst hc
      rw [linesFrom] at h
      rcases List.mem_cons.1 h with rfl | h
      · exact notMem_dropReturn hreverse
      · exact ih List.not_mem_nil h List.not_mem_nil
    · rw [linesFrom] at h
      · have hnext : '\n' ∉ c :: opened := by
          rw [List.mem_cons, not_or]
          exact ⟨Ne.symm hc, hopened⟩
        exact ih hnext h (mt List.mem_reverse.1 hnext)
      · exact hc

/-- No line holds a line feed. -/
theorem notMem_of_mem_lines (h : line ∈ lines text) : '\n' ∉ line :=
  notMem_of_mem_linesFrom List.not_mem_nil h

/-! ## Tidy lines -/

/-- The tidy text of lines has the trimmed lines for its own, apart from empty ones, whatever has
been written before it. -/
theorem filter_lines_tidyLines (h : ∀ line ∈ parts, '\n' ∉ line) (started pending : Bool) :
    (lines (tidyLines started pending parts)).filter (· ≠ []) =
      (parts.map trimEnd).filter (· ≠ []) := by
  induction parts generalizing started pending with
  | nil => rfl
  | cons line rest ih =>
    obtain ⟨hline, hrest⟩ := List.forall_mem_cons.1 h
    rw [tidyLines, List.map_cons]
    split
    · next hempty =>
      rw [hempty, ih hrest]
      rfl
    · next hkept =>
      have hwritten : lines (trimEnd line ++ '\n' :: tidyLines true false rest) =
          trimEnd line :: lines (tidyLines true false rest) := by
        rw [lines_append (notMem_trimEnd hline), dropReturn_trimEnd]
      have hpending : (lines ((if pending then ['\n'] else []) ++ trimEnd line ++
          '\n' :: tidyLines true false rest)).filter (· ≠ []) =
            (trimEnd line :: lines (tidyLines true false rest)).filter (· ≠ []) := by
        cases pending with
        | false => rw [← hwritten]; rfl
        | true =>
          -- the blank line that is due is the empty line in front
          rw [← hwritten]
          rfl
      rw [hpending, List.filter_cons, List.filter_cons, ih hrest]

/-- The lines of a tidy text that are not empty are the trimmed lines of the text that are not
empty. -/
theorem filter_lines_tidy (text : List Char) :
    (lines (tidy text)).filter (· ≠ []) = ((lines text).map trimEnd).filter (· ≠ []) :=
  filter_lines_tidyLines (fun _ h => notMem_of_mem_lines h) false false

end JsonShape.Text
