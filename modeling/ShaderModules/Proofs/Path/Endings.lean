import ShaderModules.Proofs.Path.Segments

/-!
# Paths that end in a name

Text put behind a path that ends in a name extends this name. Paths that differ therefore still
differ with the same text behind them (`components_append_inj`), and so do paths below the same
directory (`components_join_inj`).

* `Path.EndsInName`: the last segment of a path is a name.
* `Path.Below`: a relative path that ends in a name and starts with a name or `..`.
-/

namespace ShaderModules.Path

/-! ## Names -/

theorem ofSegment?_eq_name {s : List Char} (hnil : s ≠ []) (hhere : s ≠ ['.'])
    (hup : s ≠ ['.', '.']) : ofSegment? s = some (.name s) := by
  unfold ofSegment?
  split
  · exact absurd rfl hnil
  · exact absurd rfl hhere
  · exact absurd rfl hup
  · rfl

theorem ne_of_isName {s : List Char} (h : ofSegment? s = some (.name s)) :
    s ≠ [] ∧ s ≠ ['.'] ∧ s ≠ ['.', '.'] := by
  refine ⟨?_, ?_, ?_⟩ <;>
  · rintro rfl
    simp [ofSegment?] at h

/-- A name with more text is a name. -/
theorem isName_append {s : List Char} (h : ofSegment? s = some (.name s)) (more : List Char) :
    ofSegment? (s ++ more) = some (.name (s ++ more)) := by
  obtain ⟨hnil, hhere, hup⟩ := ne_of_isName h
  refine ofSegment?_eq_name (by simp [hnil]) (fun heq => ?_) fun heq => ?_
  · rcases List.append_eq_singleton_iff.1 heq with ⟨hs, -⟩ | ⟨hs, -⟩
    · exact hnil hs
    · exact hhere hs
  · obtain ⟨rest, hrest⟩ : ∃ rest, s ++ rest = ['.', '.'] := ⟨more, heq⟩
    cases s with
    | nil => exact hnil rfl
    | cons c s =>
      obtain ⟨rfl, hs⟩ := List.cons.inj hrest
      rcases List.append_eq_singleton_iff.1 hs with ⟨rfl, -⟩ | ⟨rfl, -⟩
      · exact hhere rfl
      · exact hup rfl

/-! ## Paths that end in a name -/

/-- The last segment of a path is a name. -/
structure EndsInName (p : String) (name : List Char) : Prop where
  last : ∃ before, segments p.toList = before ++ [name]
  isName : ofSegment? name = some (.name name)

variable {p q : String} {name name' : List Char}

theorem EndsInName.ne_empty (h : EndsInName p name) : p ≠ "" := by
  rintro rfl
  obtain ⟨before, hlast⟩ := h.last
  have hname : name = [] := by
    cases before with
    | nil => simpa [segments] using hlast.symm
    | cons s before => simp [segments] at hlast
  exact (ne_of_isName h.isName).1 hname

theorem EndsInName.unique (h : EndsInName p name) (h' : EndsInName p name') : name = name' := by
  obtain ⟨before, hlast⟩ := h.last
  obtain ⟨before', hlast'⟩ := h'.last
  exact (List.concat_inj.1 (by simpa using hlast.symm.trans hlast')).2

theorem EndsInName.segments_append (h : EndsInName p name) {e : String} {first : List Char}
    {more : List (List Char)} (he : segments e.toList = first :: more) :
    ∃ before, segments p.toList = before ++ [name] ∧
      segments (p ++ e).toList = before ++ (name ++ first) :: more := by
  obtain ⟨before, hlast⟩ := h.last
  exact ⟨before, hlast, by rw [String.toList_append, Path.segments_append hlast he]⟩

theorem EndsInName.lead_append (h : EndsInName p name) (e : String) : lead (p ++ e) = lead p := by
  obtain ⟨first, more, he⟩ := List.exists_cons_of_ne_nil (segments_ne_nil e.toList)
  obtain ⟨before, hlast, happend⟩ := h.segments_append he
  unfold lead
  rw [isAbsolute_append h.ne_empty, hlast, happend]
  cases before with
  | nil =>
    -- the name is all of the path
    have hname := (ne_of_isName h.isName).2.1
    have hextended := (ne_of_isName (isName_append h.isName first)).2.1
    simp [hname, hextended]
  | cons s before => rfl

theorem EndsInName.steps_append (h : EndsInName p name) {e : String} {first : List Char}
    {more : List (List Char)} (he : segments e.toList = first :: more) :
    ∃ before, steps p = before ++ [.name name] ∧
      steps (p ++ e) = before ++ .name (name ++ first) :: more.filterMap ofSegment? := by
  obtain ⟨before, hlast, happend⟩ := h.segments_append he
  refine ⟨before.filterMap ofSegment?, ?_, ?_⟩
  · rw [steps, hlast, List.filterMap_append, List.filterMap_cons_some h.isName, List.filterMap_nil]
  · rw [steps, happend, List.filterMap_append,
      List.filterMap_cons_some (isName_append h.isName first)]

/-- Text behind a path extends its last name. -/
theorem EndsInName.components_append (h : EndsInName p name) {e : String} {first : List Char}
    {more : List (List Char)} (he : segments e.toList = first :: more) :
    ∃ before, components p = before ++ [.name name] ∧
      components (p ++ e) = before ++ .name (name ++ first) :: more.filterMap ofSegment? := by
  obtain ⟨before, hp, hpe⟩ := h.steps_append he
  refine ⟨lead p ++ before, ?_, ?_⟩
  · rw [components_eq_lead, hp, List.append_assoc]
  · rw [components_eq_lead, h.lead_append, hpe, List.append_assoc]

/-- **The same text behind two paths** keeps them apart. -/
theorem components_append_inj (hp : EndsInName p name) (hq : EndsInName q name') (e : String) :
    components (p ++ e) = components (q ++ e) ↔ components p = components q := by
  obtain ⟨first, more, he⟩ := List.exists_cons_of_ne_nil (segments_ne_nil e.toList)
  obtain ⟨before, hcp, hcpe⟩ := hp.components_append he
  obtain ⟨before', hcq, hcqe⟩ := hq.components_append he
  rw [hcp, hcpe, hcq, hcqe]
  constructor
  · intro h
    obtain ⟨hbefore, hname⟩ := List.append_inj' h (by simp)
    simp only [List.cons.injEq, Component.name.injEq, List.append_cancel_right_eq] at hname
    rw [hbefore, hname.1]
  · intro h
    obtain ⟨hbefore, hname⟩ := List.append_inj' h rfl
    simp only [List.cons.injEq, Component.name.injEq, and_true] at hname
    rw [hbefore, hname]

/-- What a path with text behind it ends in: the last segment of the text, if it has several. -/
theorem EndsInName.eq_getLast (h : EndsInName p name) {e : String} {first last : List Char}
    {more : List (List Char)} (he : segments e.toList = first :: more)
    (hlast : EndsInName (p ++ e) last) : last = more.getLast?.getD (name ++ first) := by
  obtain ⟨before, -, happend⟩ := h.segments_append he
  obtain ⟨before', hpe⟩ := hlast.last
  rw [happend] at hpe
  have hends := congrArg List.getLast? hpe
  rw [List.getLast?_append, List.getLast?_cons, List.getLast?_concat, Option.some_or] at hends
  exact (Option.some.inj hends).symm

/-- With the same text behind them, paths that end in names both end in a name or neither does. -/
theorem EndsInName.of_append (hp : EndsInName p name) (hq : EndsInName q name') {e : String}
    {last : List Char} (h : EndsInName (p ++ e) last) : ∃ last', EndsInName (q ++ e) last' := by
  obtain ⟨first, more, he⟩ := List.exists_cons_of_ne_nil (segments_ne_nil e.toList)
  obtain ⟨before, -, happend⟩ := hq.segments_append he
  have hlast := hp.eq_getLast he h
  rcases List.eq_nil_or_concat more with rfl | ⟨init, s, rfl⟩
  · exact ⟨name' ++ first, ⟨before, happend⟩, isName_append hq.isName first⟩
  · -- the last segment is one of the text
    rw [List.concat_eq_append] at happend hlast
    rw [List.getLast?_concat, Option.getD_some] at hlast
    exact ⟨s, ⟨before ++ (name' ++ first) :: init, by rw [happend]; simp⟩, hlast ▸ h.isName⟩

/-- Paths that end in the same text `e`, one of them with more text behind it, are different unless
`e` is at the end of itself with this text. -/
theorem suffix_of_components_eq (hp : EndsInName p name) (hq : EndsInName q name') {e x : String}
    {last last' : List Char} (hpe : EndsInName (p ++ e) last) (hqe : EndsInName (q ++ e) last')
    (hx : x ≠ "") (hslash : '/' ∉ x.toList)
    (h : components (p ++ e) = components (q ++ e ++ x)) : e.toList <:+ e.toList ++ x.toList := by
  obtain ⟨before, -, hqex⟩ := hqe.components_append (segments_of_notMem hslash)
  obtain ⟨before', hpe', -⟩ := hpe.components_append (segments_of_notMem hslash)
  have hlasts : last = last' ++ x.toList := by
    rw [hpe', hqex] at h
    simpa using (List.append_inj' h rfl).2
  obtain ⟨first, more, he⟩ := List.exists_cons_of_ne_nil (segments_ne_nil e.toList)
  have hlast := hp.eq_getLast he hpe
  have hlast' := hq.eq_getLast he hqe
  cases hmore : more.getLast? with
  | some s =>
    -- the text has several segments, and its last one cannot be longer than itself
    rw [hmore] at hlast hlast'
    rw [hlast, hlast', Option.getD_some] at hlasts
    simp [hx] at hlasts
  | none =>
    rw [List.getLast?_eq_none_iff.1 hmore] at he
    rw [hmore, Option.getD_none] at hlast hlast'
    have hfirst : e.toList = first := toList_of_segments he
    rw [hlast, hlast', ← hfirst] at hlasts
    have hsuffix : e.toList <:+ name ++ e.toList := List.suffix_append _ _
    have hsuffix' : e.toList ++ x.toList <:+ name ++ e.toList := by
      rw [hlasts, List.append_assoc]
      exact List.suffix_append _ _
    exact List.suffix_of_suffix_length_le hsuffix hsuffix' (by simp)

/-! ## Paths below a directory -/

/-- A relative path that ends in a name and starts with a name or `..`. -/
structure Below (p : String) (name : List Char) : Prop extends EndsInName p name where
  relative : isAbsolute p = false
  bare : components p = steps p

/-- A path below a directory starts as the directory does. -/
theorem Below.lead_join (h : Below p name) (dir : String) : lead (join dir p) = lead dir := by
  by_cases hdir : dir = ""
  · have hnil : lead p = [] :=
      List.append_left_eq_self.1 ((components_eq_lead p).symm.trans h.bare)
    have hempty : lead "" = [] := by decide
    rw [hdir, hempty, ← hnil]
    simp [join]
  · rw [join_eq_under hdir h.relative, lead_under hdir]

theorem components_join_inj (hp : Below p name) (hq : Below q name') (dir : String) :
    components (join dir p) = components (join dir q) ↔ components p = components q := by
  by_cases hdir : dir = ""
  · subst hdir
    simp [join]
  · rw [join_eq_under hdir hp.relative, join_eq_under hdir hq.relative, components_under hdir,
      components_under hdir, List.append_cancel_left_eq, hp.bare, hq.bare]

theorem Below.endsInName_join (h : Below p name) (dir : String) : EndsInName (join dir p) name := by
  refine ⟨?_, h.isName⟩
  obtain ⟨before, hlast⟩ := h.last
  by_cases hdir : dir = ""
  · exact ⟨before, by rw [← hlast, hdir]; simp [join]⟩
  · obtain ⟨first, more, hunder, -⟩ := segments_under dir p
    rw [join_eq_under hdir h.relative]
    exact ⟨first :: (more ++ before), by rw [hunder, hlast]; simp⟩

/-- Behind a directory, a path that ends in a name has a component. -/
theorem EndsInName.steps_ne_nil {base : String} (h : EndsInName (under base p) name) :
    steps p ≠ [] := by
  obtain ⟨before, hlast⟩ := h.last
  obtain ⟨first, more, hunder, -⟩ := segments_under base p
  obtain ⟨init, last, hp⟩ : ∃ init last, segments p.toList = init ++ [last] :=
    ⟨_, _, (List.dropLast_concat_getLast (segments_ne_nil _)).symm⟩
  rw [hunder, hp, ← List.append_assoc, ← List.cons_append] at hlast
  obtain ⟨-, hname⟩ := List.append_inj' hlast rfl
  rw [steps, hp, List.filterMap_append, List.singleton_inj.1 hname]
  simp [h.isName]

end ShaderModules.Path
