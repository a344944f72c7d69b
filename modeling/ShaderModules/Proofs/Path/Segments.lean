import ShaderModules.Path

/-!
# Segments and components of paths

The segments of a path are what stands between its slashes. All but the first of them become
components in the same way, wherever they stand, so the components of a joined path are those of
its parts (`steps_join`, `components_under`).

* `segments_append_slash`, `segments_append`: the segments of texts put together.
* `Path.lead`, `Path.steps`: the slash or `.` that a path starts with, and the other components.
* `Path.under`: a path put behind another; this is how paths are joined.
-/

namespace ShaderModules.Path

/-! ## Segments -/

theorem segments_ne_nil (l : List Char) : segments l ≠ [] := by
  cases l with
  | nil => exact List.cons_ne_nil _ _
  | cons c rest =>
    rw [segments]
    split
    · exact List.cons_ne_nil _ _
    · split <;> exact List.cons_ne_nil _ _

theorem segments_eq_splitOn (l : List Char) : segments l = l.splitOn '/' := by
  induction l with
  | nil => rfl
  | cons c rest ih =>
    rw [segments, List.splitOn, List.splitOnP_cons_eq_if_modifyHead, ← List.splitOn, ← ih]
    by_cases hc : c = '/'
    · simp [hc]
    · rw [if_neg hc, if_neg (by simpa using hc)]
      cases h : segments rest with
      | nil => exact absurd h (segments_ne_nil rest)
      | cons s more => rfl

theorem segments_slash (l : List Char) : segments ('/' :: l) = [] :: segments l := by
  rw [segments, if_pos rfl]

/-- Text is put behind the last segment and before the first one. -/
theorem segments_append {a b first : List Char} {before more : List (List Char)}
    {last : List Char} (ha : segments a = before ++ [last]) (hb : segments b = first :: more) :
    segments (a ++ b) = before ++ (last ++ first) :: more := by
  induction a generalizing before last with
  | nil =>
    obtain ⟨rfl, rfl⟩ : before = [] ∧ last = [] := by
      cases before with
      | nil => simpa [segments] using ha.symm
      | cons s more => cases more <;> simp [segments] at ha
    simpa using hb
  | cons c rest ih =>
    rw [List.cons_append, segments]
    by_cases hc : c = '/'
    · subst hc
      rw [segments_slash] at ha
      rw [if_pos rfl]
      cases before with
      | nil =>
        obtain ⟨-, hnil⟩ := List.cons.inj ha
        exact absurd hnil (segments_ne_nil rest)
      | cons s more =>
        obtain ⟨rfl, hrest⟩ := List.cons.inj ha
        rw [ih hrest, List.cons_append]
    · rw [segments, if_neg hc] at ha
      rw [if_neg hc]
      cases hs : segments rest with
      | nil => exact absurd hs (segments_ne_nil rest)
      | cons s more =>
        rw [hs] at ha
        cases before with
        | nil =>
          obtain ⟨rfl, rfl⟩ := List.cons.inj ha
          rw [@ih [] _ hs]
          rfl
        | cons d before =>
          obtain ⟨rfl, hmore⟩ := List.cons.inj ha
          rw [@ih (s :: before) _ (hs.trans (congrArg (s :: ·) hmore))]
          rfl

theorem segments_append_slash (a b : List Char) :
    segments (a ++ '/' :: b) = segments a ++ segments b := by
  obtain ⟨before, last, ha⟩ : ∃ before last, segments a = before ++ [last] :=
    ⟨_, _, (List.dropLast_concat_getLast (segments_ne_nil a)).symm⟩
  rw [segments_append ha (segments_slash b), ha]
  simp

theorem segments_of_notMem {name : List Char} (h : '/' ∉ name) : segments name = [name] := by
  rw [segments_eq_splitOn, List.splitOn, List.splitOnP_eq_singleton]
  intro c hc
  simpa using fun he : c = '/' => h (he ▸ hc)

theorem toList_of_segments {l s : List Char} (h : segments l = [s]) : l = s := by
  by_cases hslash : '/' ∈ l
  · obtain ⟨a, b, rfl⟩ := List.append_of_mem hslash
    rw [segments_append_slash] at h
    have hlength := congrArg List.length h
    have ha := List.length_pos_iff.2 (segments_ne_nil a)
    have hb := List.length_pos_iff.2 (segments_ne_nil b)
    rw [List.length_append, List.length_singleton] at hlength
    omega
  · rw [segments_of_notMem hslash] at h
    exact List.singleton_inj.1 h

/-- The segments are what is left of a text without its slashes. -/
theorem flatten_segments (l : List Char) : (segments l).flatten = l.filter (· != '/') := by
  induction l with
  | nil => rfl
  | cons c rest ih =>
    rw [segments]
    by_cases hc : c = '/'
    · rw [if_pos hc, List.flatten_cons, ih, List.filter_cons_of_neg (by simp [hc])]
      rfl
    · rw [if_neg hc, List.filter_cons_of_pos (by simp [hc]), ← ih]
      cases hs : segments rest with
      | nil => exact absurd hs (segments_ne_nil rest)
      | cons first more => rfl

theorem mem_of_mem_segments {l s : List Char} (hs : s ∈ segments l) {c : Char} (hc : c ∈ s) :
    c ∈ l ∧ c ≠ '/' := by
  have hmem : c ∈ (segments l).flatten := List.mem_flatten.2 ⟨s, hs, hc⟩
  rw [flatten_segments, List.mem_filter, bne_iff_ne] at hmem
  exact hmem

theorem notMem_of_mem_segments {l s : List Char} (h : s ∈ segments l) : '/' ∉ s :=
  fun hslash => (mem_of_mem_segments h hslash).2 rfl

/-! ## Components -/

/-- The components of a path without the slash or the `.` that it starts with. -/
def steps (p : String) : List Component := (segments p.toList).filterMap ofSegment?

theorem ne_nil_of_ofSegment? {s n : List Char} (h : ofSegment? s = some (.name n)) : n ≠ [] := by
  unfold ofSegment? at h
  split at h <;> cases h
  assumption

theorem eq_of_ofSegment? {s n : List Char} (h : ofSegment? s = some (.name n)) : s = n := by
  unfold ofSegment? at h
  split at h <;> cases h
  rfl

theorem exists_of_isAbsolute {p : String} (h : isAbsolute p = true) :
    ∃ rest, p.toList = '/' :: rest := by
  unfold isAbsolute at h
  cases hp : p.toList with
  | nil => rw [hp] at h; cases h
  | cons c rest =>
    rw [hp] at h
    exact ⟨rest, by simpa using h⟩

theorem ne_empty_of_isAbsolute {p : String} (h : isAbsolute p = true) : p ≠ "" := by
  rintro rfl
  cases h

theorem components_of_isAbsolute {p : String} (h : isAbsolute p = true) :
    components p = .root :: steps p := by
  obtain ⟨rest, hp⟩ := exists_of_isAbsolute h
  unfold components steps
  rw [hp, segments_slash, List.filterMap_cons_none rfl]
  simp [h]

theorem ofFirst?_of_ne {s : List Char} (h : s ≠ ['.']) : ofFirst? s = ofSegment? s := by
  unfold ofFirst?
  split
  · exact absurd rfl h
  · rfl

/-- The slash or the `.` that a path starts with. -/
def lead (p : String) : List Component :=
  if isAbsolute p then [.root]
  else if (segments p.toList).head? = some ['.'] then [.here] else []

theorem components_eq_lead (p : String) : components p = lead p ++ steps p := by
  unfold lead
  split
  · rename_i habs
    exact components_of_isAbsolute habs
  · rename_i habs
    unfold components steps
    cases hs : segments p.toList with
    | nil => exact absurd hs (segments_ne_nil _)
    | cons first rest =>
      simp only [habs, Bool.false_eq_true, if_false, List.head?_cons, Option.some.injEq]
      by_cases hfirst : first = ['.']
      · simp [hfirst, ofFirst?, ofSegment?]
      · rw [ofFirst?_of_ne hfirst, if_neg hfirst, List.nil_append, List.filterMap_cons]
        cases ofSegment? first <;> rfl

/-- A relative path has its steps as components, after a `.` if it starts with one. -/
theorem components_of_not_isAbsolute {p : String} (h : isAbsolute p = false) :
    components p = steps p ∨ components p = .here :: steps p := by
  rw [components_eq_lead, lead, h, if_neg Bool.false_ne_true]
  split
  · exact .inr rfl
  · exact .inl rfl

theorem isAbsolute_iff_lead {p : String} : isAbsolute p = true ↔ lead p = [.root] := by
  unfold lead
  split
  · simp [*]
  · split <;> simp [*]

/-! ## Joined paths -/

theorem isAbsolute_append {base : String} (h : base ≠ "") (p : String) :
    isAbsolute (base ++ p) = isAbsolute base := by
  unfold isAbsolute
  rw [String.toList_append]
  cases hb : base.toList with
  | nil => exact absurd (String.toList_eq_nil_iff.1 hb) h
  | cons c rest => rfl

/-- A text behind a path, with one slash between them at least. -/
def under (base p : String) : String :=
  if base.toList.getLast? = some '/' then base ++ p else base ++ "/" ++ p

theorem join_eq_under {base p : String} (hbase : base ≠ "") (hp : isAbsolute p = false) :
    join base p = under base p := by
  rw [join, hp, Bool.false_or, if_neg (by simpa using hbase), under]

theorem isAbsolute_under {base : String} (hbase : base ≠ "") (p : String) :
    isAbsolute (under base p) = isAbsolute base := by
  unfold under
  split
  · exact isAbsolute_append hbase p
  · rw [isAbsolute_append (by simp [hbase]), isAbsolute_append hbase]

/-- The segments of both parts; one slash at the end of the first part counts for nothing. -/
theorem segments_under (base p : String) :
    ∃ first more, segments (under base p).toList = first :: (more ++ segments p.toList) ∧
      (segments base.toList = first :: more ∨ segments base.toList = first :: (more ++ [[]])) := by
  unfold under
  split
  · rename_i hlast
    obtain ⟨init, hb⟩ := List.getLast?_eq_some_iff.1 hlast
    obtain ⟨first, more, hinit⟩ := List.exists_cons_of_ne_nil (segments_ne_nil init)
    have hbase : segments base.toList = segments init ++ [[]] := by
      rw [hb]
      exact segments_append_slash _ _
    have hboth : segments (base ++ p).toList = segments init ++ segments p.toList := by
      rw [String.toList_append, hb, List.append_assoc]
      exact segments_append_slash _ _
    rw [hinit] at hbase hboth
    exact ⟨first, more, hboth, .inr hbase⟩
  · obtain ⟨first, more, hbase⟩ := List.exists_cons_of_ne_nil (segments_ne_nil base.toList)
    have hboth : segments (base ++ "/" ++ p).toList =
        segments base.toList ++ segments p.toList := by
      rw [String.toList_append, String.toList_append, List.append_assoc]
      exact segments_append_slash _ _
    rw [hbase] at hboth
    exact ⟨first, more, hboth, .inl hbase⟩

theorem components_of_segments {p : String} {first : List Char} {more : List (List Char)}
    (h : segments p.toList = first :: more) : components p =
      (if isAbsolute p then [.root] else (ofFirst? first).toList) ++ more.filterMap ofSegment? := by
  unfold components
  rw [h]

/-- The components of both parts, where the second has no first place. -/
theorem components_under {base : String} (hbase : base ≠ "") (p : String) :
    components (under base p) = components base ++ steps p := by
  obtain ⟨first, more, hunder, hb⟩ := segments_under base p
  rw [components_of_segments hunder, isAbsolute_under hbase, List.filterMap_append,
    ← List.append_assoc]
  refine congrArg (· ++ steps p) ?_
  rcases hb with hb | hb
  · rw [components_of_segments hb]
  · rw [components_of_segments hb, List.filterMap_append]
    simp [ofSegment?]

theorem steps_under (base p : String) :
    steps (under base p) = steps base ++ steps p := by
  obtain ⟨first, more, hunder, hb⟩ := segments_under base p
  unfold steps
  rw [hunder, ← List.cons_append, List.filterMap_append]
  rcases hb with hb | hb
  · rw [hb]
  · rw [hb, ← List.cons_append, List.filterMap_append (l := first :: more)]
    simp [ofSegment?]

theorem lead_under {base : String} (hbase : base ≠ "") (p : String) :
    lead (under base p) = lead base := by
  have h := components_under hbase p
  rw [components_eq_lead, components_eq_lead, steps_under, List.append_assoc] at h
  exact List.append_cancel_right h

theorem isAbsolute_join {base p : String} (hbase : base ≠ "") (hp : isAbsolute p = false) :
    isAbsolute (join base p) = isAbsolute base := by
  rw [join_eq_under hbase hp, isAbsolute_under hbase]

theorem steps_join {base p : String} (hp : isAbsolute p = false) :
    steps (join base p) = steps base ++ steps p := by
  by_cases hbase : base = ""
  · subst hbase
    simp [join, steps, segments, ofSegment?]
  · rw [join_eq_under hbase hp, steps_under]

end ShaderModules.Path
