import ShaderModules.Preprocessor.Inliner

/-!
# Lines put together and taken apart

Lines that are put together, each with a line feed behind it, are the lines of the text that comes
out, except that a carriage return at the end of a line is now part of the line end
(`Text.lines_flatMap`). No directive comes about in this way: a line that is none is none without
the carriage return behind it either (`Directive.plain_closeLine`).
-/

namespace ShaderModules

namespace Text

variable {c : Char} {s line : List Char}

theorem linesFrom_cons (h : c ≠ '\n') (line s : List Char) :
    linesFrom line (c :: s) = linesFrom (c :: line) s := by
  rw [linesFrom]
  exact h

theorem linesFrom_append (h : '\n' ∉ s) (line rest : List Char) :
    linesFrom line (s ++ rest) = linesFrom (s.reverse ++ line) rest := by
  induction s generalizing line with
  | nil => rfl
  | cons c s ih =>
    rw [List.mem_cons, not_or] at h
    rw [List.cons_append, linesFrom_cons (Ne.symm h.1), ih h.2, List.reverse_cons,
      List.append_assoc, List.singleton_append]

/-- Closing a line leaves it as it is, or takes one carriage return off its end. -/
theorem closeLine_cases (line : List Char) :
    closeLine line = line.reverse ∨ line.reverse = closeLine line ++ ['\r'] := by
  unfold closeLine
  split
  · exact .inr List.reverse_cons
  · exact .inl rfl

theorem closeLine_reverse (h : '\r' ∉ line) : closeLine line.reverse = line := by
  rcases closeLine_cases line.reverse with hclose | hclose
  · rw [hclose, List.reverse_reverse]
  · rw [List.reverse_reverse] at hclose
    exact absurd (hclose ▸ List.mem_append_right _ (List.mem_singleton_self _)) h

theorem mem_of_mem_closeLine (h : c ∈ closeLine line) : c ∈ line := by
  rcases closeLine_cases line with hclose | hclose
  · exact List.mem_reverse.1 (hclose ▸ h)
  · exact List.mem_reverse.1 (hclose ▸ List.mem_append_left _ h)

theorem notMem_of_mem_linesFrom (hline : '\n' ∉ line) {l : List Char} (h : l ∈ linesFrom line s) :
    '\n' ∉ l := by
  fun_induction linesFrom line s with
  | case1 line hempty => cases h
  | case2 line hempty =>
    rw [List.mem_singleton] at h
    exact h ▸ fun hn => hline (List.mem_reverse.1 hn)
  | case3 line rest ih =>
    rcases List.mem_cons.1 h with rfl | h
    · exact fun hn => hline (mem_of_mem_closeLine hn)
    · exact ih List.not_mem_nil h
  | case4 line c rest hc ih =>
    refine ih ?_ h
    rw [List.mem_cons, not_or]
    exact ⟨fun hn => hc hn.symm, hline⟩

/-- A line holds no line feed. -/
theorem notMem_of_mem_lines {l : List Char} (h : l ∈ lines s) : '\n' ∉ l :=
  notMem_of_mem_linesFrom List.not_mem_nil h

/-- The lines of lines put together. -/
theorem lines_flatMap {ls : List (List Char)} (h : ∀ l ∈ ls, '\n' ∉ l) :
    lines (ls.flatMap (· ++ ['\n'])) = ls.map fun l => closeLine l.reverse := by
  unfold lines
  induction ls with
  | nil => rfl
  | cons l ls ih =>
    rw [List.flatMap_cons, List.append_assoc, linesFrom_append (h l List.mem_cons_self),
      List.append_nil, List.singleton_append, linesFrom,
      ih fun l' hl' => h l' (List.mem_cons_of_mem l hl'), List.map_cons]

/-! ## Blank characters behind a line -/

/-- Blank characters in front are taken off a text alike, whatever follows it, unless nothing is
left of it. -/
theorem trimStart_append (h : trimStart s ≠ []) (rest : List Char) :
    trimStart (s ++ rest) = trimStart s ++ rest := by
  unfold trimStart at h ⊢
  induction s with
  | nil => exact absurd rfl h
  | cons c s ih =>
    rw [List.dropWhile_cons] at h
    rw [List.cons_append, List.dropWhile_cons, List.dropWhile_cons]
    by_cases hc : isBlank c = true
    · rw [if_pos hc] at h
      rw [if_pos hc, if_pos hc]
      exact ih h
    · rw [if_neg hc, if_neg hc, List.cons_append]

end Text

namespace Directive

open Text

variable {c : Char} {s line : List Char}

/-- What follows a text is part of what follows the words of a directive in it. -/
theorem afterHead?_append {rest : List Char} (h : afterHead? s = some rest) (more : List Char) :
    afterHead? (s ++ more) = some (rest ++ more) := by
  unfold afterHead? at h ⊢
  cases hinclude : stripPrefix? "#include".toList s with
  | some r =>
    rw [hinclude] at h
    cases h
    rw [stripPrefix?_eq_some_iff.1 hinclude, List.append_assoc, stripPrefix?_eq_some_iff.2 rfl]
  | none =>
    rw [hinclude] at h
    cases hpragma : stripPrefix? "#pragma".toList s with
    | none =>
      rw [hpragma] at h
      cases h
    | some r =>
      rw [hpragma] at h
      have hr : trimStart r = "include".toList ++ rest := stripPrefix?_eq_some_iff.1 h
      have hne : trimStart r ≠ [] := by
        rw [hr]
        exact List.cons_ne_nil _ _
      have hother : stripPrefix? "#include".toList ("#pragma".toList ++ (r ++ more)) = none := rfl
      rw [stripPrefix?_eq_some_iff.1 hpragma, List.append_assoc, hother,
        stripPrefix?_eq_some_iff.2 rfl]
      dsimp only
      rw [trimStart_append hne, hr, List.append_assoc, stripPrefix?_eq_some_iff.2 rfl]

theorem endsHead_concat (hc : isBlank c = true) (h : endsHead s = true) :
    endsHead (s ++ [c]) = true := by
  cases s with
  | nil => rw [List.nil_append, endsHead, hc, Bool.true_or, Bool.true_or]
  | cons a s => exact h

/-- A line is plain exactly if it has not the words of a directive in front. -/
theorem ofText_eq_plain_iff : Line.ofText line = .plain ↔
    ∀ rest, afterHead? (trimStart line) = some rest → endsHead rest = false := by
  unfold Line.ofText
  cases hhead : afterHead? (trimStart line) with
  | none => simp
  | some rest =>
    cases hends : endsHead rest with
    | false => simp [hends]
    | true => cases htarget : targetOf? rest <;> simp [hends, htarget]

/-- A line that is plain with a blank character behind it is plain without it. -/
theorem plain_of_concat (hc : isBlank c = true) (h : Line.ofText (line ++ [c]) = .plain) :
    Line.ofText line = .plain := by
  rw [ofText_eq_plain_iff] at h ⊢
  intro rest hrest
  have hne : trimStart line ≠ [] := by
    intro hnil
    rw [hnil] at hrest
    cases hrest
  have hends := h (rest ++ [c]) (trimStart_append hne [c] ▸ afterHead?_append hrest [c])
  rw [← Bool.not_eq_true] at hends ⊢
  exact fun hs => hends (endsHead_concat hc hs)

/-- A plain line is plain without the carriage return that belongs to its end. -/
theorem plain_closeLine (h : Line.ofText line = .plain) :
    Line.ofText (closeLine line.reverse) = .plain := by
  rcases closeLine_cases line.reverse with hclose | hclose
  · rw [hclose, List.reverse_reverse]
    exact h
  · rw [List.reverse_reverse] at hclose
    exact plain_of_concat (c := '\r') rfl (hclose ▸ h)

end Directive

end ShaderModules
