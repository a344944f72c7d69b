import ShaderModules.Proofs.Path.Endings

/-!
# Parts of paths

Parts of a path are cut out of its text where its components stand. What is cut out of a path that
ends in a name, from a place behind its root on, is a path with the components from that place on.

* `Path.width`: the text that segments and their slashes take.
* `below_of_components`, `below_of_fileName`: the path below a directory and the bare file name.
-/

namespace ShaderModules.Path

/-! ## Places of segments -/

/-- The length of segments, each with the slash behind it. -/
def width : List (List Char) → Nat
  | [] => 0
  | s :: l => s.length + 1 + width l

theorem width_append (a b : List (List Char)) : width (a ++ b) = width a + width b := by
  induction a with
  | nil => simp [width]
  | cons s a ih => simp only [List.cons_append, width, ih, Nat.add_assoc]

theorem exists_of_segments_cons {l s : List Char} {rest : List (List Char)}
    (h : segments l = s :: rest) (hrest : rest ≠ []) :
    ∃ after, l = s ++ '/' :: after ∧ segments after = rest := by
  by_cases hslash : '/' ∈ l
  · obtain ⟨before, after, rfl, hbefore⟩ := List.eq_append_cons_of_mem hslash
    rw [segments_append_slash, segments_of_notMem hbefore] at h
    obtain ⟨rfl, hafter⟩ := List.cons.inj h
    exact ⟨after, rfl, hafter⟩
  · rw [segments_of_notMem hslash] at h
    exact absurd (List.cons.inj h).2.symm hrest

/-- The segments of a text from a segment on. -/
theorem segments_drop {l : List Char} {before after : List (List Char)}
    (h : segments l = before ++ after) (hafter : after ≠ []) :
    segments (l.drop (width before)) = after := by
  induction before generalizing l with
  | nil => exact h
  | cons s before ih =>
    obtain ⟨rest, rfl, hrest⟩ := exists_of_segments_cons h (by simp [hafter])
    rw [width, show s ++ '/' :: rest = (s ++ ['/']) ++ rest by simp,
      ← ih hrest, ← List.drop_drop, List.drop_left' (by simp)]

theorem width_segments (l : List Char) : width (segments l) = l.length + 1 := by
  obtain ⟨before, last, h⟩ : ∃ before last, segments l = before ++ [last] :=
    ⟨_, _, (List.dropLast_concat_getLast (segments_ne_nil l)).symm⟩
  induction before generalizing l with
  | nil =>
    rw [h, toList_of_segments h]
    rfl
  | cons s before ih =>
    rw [List.cons_append] at h
    obtain ⟨rest, rfl, hrest⟩ := exists_of_segments_cons h (by simp)
    rw [h, width, ← hrest, ih rest hrest, List.length_append, List.length_cons]
    omega

/-! ## Places of components -/

theorem placedFrom_append (offset : Nat) (a b : List (List Char)) :
    placedFrom offset (a ++ b) = placedFrom offset a ++ placedFrom (offset + width a) b := by
  induction a generalizing offset with
  | nil => rfl
  | cons s a ih =>
    simp only [List.cons_append, placedFrom, ih, width, Nat.add_assoc]
    split <;> rfl

/-- A component stands where its segment does. -/
theorem exists_of_placedFrom {offset : Nat} {l : List (List Char)} {before after : List Placed}
    {c : Placed} (h : placedFrom offset l = before ++ c :: after) :
    ∃ front s back, l = front ++ s :: back ∧ ofSegment? s = some c.component ∧
      c.start = offset + width front ∧ after.map Placed.component = back.filterMap ofSegment? := by
  induction l generalizing offset before with
  | nil => simp [placedFrom] at h
  | cons s l ih =>
    have hlater : ∀ {before' : List Placed},
        placedFrom (offset + s.length + 1) l = before' ++ c :: after →
        ∃ front s' back, s :: l = front ++ s' :: back ∧ ofSegment? s' = some c.component ∧
          c.start = offset + width front ∧
            after.map Placed.component = back.filterMap ofSegment? := by
      intro before' hlater
      obtain ⟨front, s', back, rfl, hs', hstart, hback⟩ := ih hlater
      refine ⟨s :: front, s', back, rfl, hs', ?_, hback⟩
      rw [hstart, width]
      omega
    rw [placedFrom] at h
    cases hs : ofSegment? s with
    | none =>
      rw [hs] at h
      exact hlater h
    | some component =>
      rw [hs] at h
      cases before with
      | nil =>
        obtain ⟨rfl, rfl⟩ := List.cons.inj h
        exact ⟨[], s, l, rfl, hs, rfl, placedFrom_components _ _⟩
      | cons first before => exact hlater (List.cons.inj h).2

variable {p : String} {name : List Char}

theorem exists_of_isAbsolute_placed (h : isAbsolute p = true) :
    ∃ rest, p.toList = '/' :: rest ∧ placed p = ⟨.root, 0, 1⟩ :: placedFrom 1 (segments rest) := by
  obtain ⟨rest, hp⟩ := exists_of_isAbsolute h
  refine ⟨rest, hp, ?_⟩
  unfold placed
  rw [hp, segments_slash]
  simp [h]

/-- The name that an absolute path ends in stands at the end. -/
theorem EndsInName.getLast?_placed (h : EndsInName p name) (habs : isAbsolute p = true) :
    ∃ start, (placed p).getLast? = some ⟨.name name, start, p.toList.length⟩ := by
  obtain ⟨rest, hp, hplaced⟩ := exists_of_isAbsolute_placed habs
  obtain ⟨before, hlast⟩ := h.last
  rw [hp, segments_slash] at hlast
  cases before with
  | nil => exact absurd (List.cons.inj hlast).2 (segments_ne_nil rest)
  | cons s before =>
    have hsegments : segments rest = before ++ [name] := (List.cons.inj hlast).2
    have hwidth := width_segments rest
    rw [hsegments, width_append, width, width, Nat.add_zero] at hwidth
    refine ⟨1 + width before, ?_⟩
    rw [hplaced, hsegments, placedFrom_append, ← List.cons_append, List.getLast?_append]
    simp only [placedFrom, h.isName, List.getLast?_singleton, Option.some_or, Option.some.injEq,
      Placed.mk.injEq, true_and, hp, List.length_cons]
    omega

/-! ## Parts that are paths -/

/-- Segments of which the first is a component and the last a name make a path below a directory. -/
theorem below_of_segments {q : String} {s : List Char} {back : List (List Char)} {c : Component}
    (hq : segments q.toList = s :: back) (hs : ofSegment? s = some c)
    (hlast : (s :: back).getLast? = some name) (hname : ofSegment? name = some (.name name)) :
    Below q name ∧ components q = c :: back.filterMap ofSegment? := by
  have hrelative : isAbsolute q = false := by
    cases habs : isAbsolute q with
    | false => rfl
    | true =>
      obtain ⟨rest, hrest⟩ := exists_of_isAbsolute habs
      rw [hrest, segments_slash] at hq
      rw [← (List.cons.inj hq).1] at hs
      cases hs
  have hfirst : ofFirst? s = some c := by
    rw [ofFirst?_of_ne, hs]
    rintro rfl
    cases hs
  have hcomponents : components q = c :: back.filterMap ofSegment? := by
    rw [components_of_segments hq, hrelative, hfirst]
    rfl
  obtain ⟨before, hbefore⟩ := List.getLast?_eq_some_iff.1 hlast
  refine ⟨⟨⟨⟨before, hq.trans hbefore⟩, hname⟩, hrelative, ?_⟩, hcomponents⟩
  rw [hcomponents, steps, hq, List.filterMap_cons_some hs]

/-- What is cut out of a path behind the components of a directory starts at the segment of the next
component and goes on to the end. -/
theorem exists_of_below (h : EndsInName p name) (hp : isAbsolute p = true) {base : String}
    (hbase : isAbsolute base = true) {tail : List Component}
    (htail : components p = components base ++ tail) (hne : tail ≠ []) :
    ∃ q front s back c, below? base p = some q ∧ segments p.toList = front ++ s :: back ∧
      segments q.toList = s :: back ∧ ofSegment? s = some c ∧
      tail = c :: back.filterMap ofSegment? := by
  obtain ⟨l, hl, hplaced⟩ := exists_of_isAbsolute_placed hp
  obtain ⟨start, hlast⟩ := h.getLast?_placed hp
  have hmap : (placed p).map Placed.component = components base ++ tail :=
    (placed_components p).trans htail
  have htake : ((placed p).take (components base).length).map Placed.component =
      components base := by rw [List.map_take, hmap, List.take_left]
  have hdrop : ((placed p).drop (components base).length).map Placed.component = tail := by
    rw [List.map_drop, hmap, List.drop_left]
  obtain ⟨first, rest, hrest⟩ : ∃ first rest,
      (placed p).drop (components base).length = first :: rest :=
    List.exists_cons_of_ne_nil fun hnil => hne (by rw [← hdrop, hnil]; rfl)
  -- the parts start behind the root, which the directory has too
  obtain ⟨before, hbefore⟩ : ∃ before, placedFrom 1 (segments l) = before ++ first :: rest := by
    rw [hplaced, components_of_isAbsolute hbase, List.length_cons, List.drop_succ_cons] at hrest
    exact ⟨_, by rw [← hrest, List.take_append_drop]⟩
  obtain ⟨front, s, back, hsegments, hs, hstart, hback⟩ := exists_of_placedFrom hbefore
  have hslice : (slice p first.start p.toList.length).toList = l.drop (width front) := by
    rw [slice, String.toList_ofList, List.take_length, hl, hstart, Nat.add_comm,
      List.drop_succ_cons]
  refine ⟨slice p first.start p.toList.length, [] :: front, s, back, first.component, ?_, ?_, ?_, hs,
    ?_⟩
  · unfold below?
    dsimp only
    rw [if_pos htake, hrest, hlast]
  · rw [hl, segments_slash, hsegments, List.cons_append]
  · rw [hslice, segments_drop hsegments (List.cons_ne_nil s back)]
  · rw [← hdrop, hrest, List.map_cons, hback]

/-- **The path below a directory** has the components that follow those of the directory. -/
theorem below_of_components (h : EndsInName p name) (hp : isAbsolute p = true) {base : String}
    (hbase : isAbsolute base = true) {tail : List Component}
    (htail : components p = components base ++ tail) (hne : tail ≠ []) :
    ∃ q, below? base p = some q ∧ Below q name ∧ components q = tail := by
  obtain ⟨q, front, s, back, c, hcut, hsegments, hq, hs, rfl⟩ := exists_of_below h hp hbase htail hne
  have hends : (s :: back).getLast? = some name := by
    obtain ⟨before, hname⟩ := h.last
    rw [hsegments] at hname
    have hgetLast := congrArg List.getLast? hname
    rwa [List.getLast?_append, List.getLast?_concat, List.getLast?_cons, Option.some_or,
      ← List.getLast?_cons] at hgetLast
  obtain ⟨hbelow, hcomponents⟩ := below_of_segments hq hs hends h.isName
  exact ⟨q, hcut, hbelow, hcomponents⟩

theorem EndsInName.fileName? (h : EndsInName p name) (hp : isAbsolute p = true) :
    fileName? p = some (String.ofList name) := by
  obtain ⟨start, hlast⟩ := h.getLast?_placed hp
  unfold Path.fileName?
  rw [hlast]

/-- A name stands between slashes. -/
theorem EndsInName.notMem (h : EndsInName p name) : '/' ∉ name := by
  obtain ⟨before, hbefore⟩ := h.last
  exact notMem_of_mem_segments (l := p.toList) (by simp [hbefore])

/-- **The bare name of a file** is a path below any directory. -/
theorem below_of_fileName (h : EndsInName p name) (hp : isAbsolute p = true) :
    ∃ q, fileName? p = some q ∧ Below q name := by
  have hname : segments (String.ofList name).toList = [name] := by
    rw [String.toList_ofList, segments_of_notMem h.notMem]
  exact ⟨_, h.fileName? hp, (below_of_segments hname h.isName rfl h.isName).1⟩

end ShaderModules.Path
