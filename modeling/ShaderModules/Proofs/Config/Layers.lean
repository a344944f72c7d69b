import Mathlib.Data.String.Basic
import ShaderModules.Config.Load

/-!
# Layers on top of each other

What is found at a path of keys in layers that are merged one after the other. A layer in which
there are only tables on the way to a path, and nothing at it, lets what is below pass
(`Setting.get?_merge_of_passes`). What a layer sets at a path stays or, if there are tables on both
sides, is merged with what is below (`Setting.get?_merge_of_get?`). So the highest layer that sets
something at a path wins, if the layers above let it pass (`Setting.Wins.get?_stack`).

* `Keyed.Ascending`, `Setting.Ordered`: the entries of tables are in the order of their keys. This
  holds of all layers.
* `Setting.Passes`, `Setting.Wins`: what layers do at a path.
-/

namespace ShaderModules

/-! ## Keys in order -/

namespace Keyed

variable {α : Type} {key : String} {value : α} {m m' : Keyed α}

/-- The keys are in order, and no key is there twice. -/
def Ascending (m : Keyed α) : Prop := m.Pairwise fun p q => p.1 < q.1

theorem mem_of_get? (h : get? key m = some value) : (key, value) ∈ m := by
  induction m with
  | nil => cases h
  | cons p rest ih =>
    obtain ⟨k, v⟩ := p
    rw [get?] at h
    split at h
    · rename_i hk
      cases h
      exact hk ▸ List.mem_cons_self
    · exact List.mem_cons_of_mem _ (ih h)

theorem get?_eq_none_iff : get? key m = none ↔ ∀ p ∈ m, p.1 ≠ key := by
  induction m with
  | nil => simp [get?]
  | cons p rest ih =>
    obtain ⟨k, v⟩ := p
    rw [get?, List.forall_mem_cons, ← ih]
    by_cases hk : k = key <;> simp [hk]

/-- The pair of a key, and the pairs of other keys before and after it. -/
theorem exists_of_get? (h : get? key m = some value) (hm : Ascending m) :
    ∃ before after, m = before ++ (key, value) :: after ∧
      (∀ p ∈ before, p.1 ≠ key) ∧ ∀ p ∈ after, p.1 ≠ key := by
  obtain ⟨before, after, rfl⟩ := List.append_of_mem (mem_of_get? h)
  obtain ⟨-, hafter, hbefore⟩ := List.pairwise_append.1 hm
  refine ⟨before, after, rfl, fun p hp => ?_, fun p hp => ?_⟩
  · exact (hbefore p hp _ List.mem_cons_self).ne
  · exact (List.rel_of_pairwise_cons hafter hp).ne'

theorem get?_eq_some_iff (hm : Ascending m) : get? key m = some value ↔ (key, value) ∈ m := by
  refine ⟨mem_of_get?, fun hmem => ?_⟩
  obtain ⟨v, hv⟩ := Option.ne_none_iff_exists'.1 fun hnone => get?_eq_none_iff.1 hnone _ hmem rfl
  obtain ⟨before, after, rfl, hbefore, hafter⟩ := exists_of_get? hv hm
  rcases List.mem_append.1 hmem with h | h
  · exact absurd rfl (hbefore _ h)
  · rcases List.mem_cons.1 h with h | h
    · cases h
      exact hv
    · exact absurd rfl (hafter _ h)

/-- Maps with the same values are equal. -/
theorem Ascending.ext (hm : Ascending m) (hm' : Ascending m')
    (h : ∀ key, get? key m = get? key m') : m = m' := by
  have hmem : ∀ p, p ∈ m ↔ p ∈ m' := fun p => by
    rw [← get?_eq_some_iff hm, ← get?_eq_some_iff hm', h]
  have hnodup : m.Nodup := hm.imp fun hlt heq => (heq ▸ hlt).false
  have hnodup' : m'.Nodup := hm'.imp fun hlt heq => (heq ▸ hlt).false
  refine ((List.perm_ext_iff_of_nodup hnodup hnodup').2 hmem).eq_of_pairwise ?_ hm hm'
  exact fun p q _ _ hpq hqp => absurd (hpq.trans hqp) (lt_irrefl _)

theorem mem_of_mem_insert {p : String × α} (h : p ∈ insert key value m) :
    p = (key, value) ∨ p ∈ m := by
  induction m with
  | nil => exact .inl (List.mem_singleton.1 h)
  | cons q rest ih =>
    obtain ⟨k, v⟩ := q
    rw [insert] at h
    split at h
    · exact (List.mem_cons.1 h).imp_right (List.mem_cons_of_mem _)
    · split at h
      · exact List.mem_cons.1 h
      · rcases List.mem_cons.1 h with rfl | h
        · exact .inr List.mem_cons_self
        · exact (ih h).imp_right (List.mem_cons_of_mem _)

theorem Ascending.insert (hm : Ascending m) (key : String) (value : α) :
    Ascending (Keyed.insert key value m) := by
  induction m with
  | nil => exact List.pairwise_singleton ..
  | cons p rest ih =>
    obtain ⟨k, v⟩ := p
    obtain ⟨hk, hrest⟩ := List.pairwise_cons.1 hm
    rw [Keyed.insert]
    split
    · rename_i hsame
      exact .cons (fun q hq => hsame ▸ hk q hq) hrest
    · rename_i hne
      split
      · rename_i hlt
        refine .cons (fun q hq => ?_) hm
        rcases List.mem_cons.1 hq with rfl | hq
        · exact hlt
        · exact hlt.trans (hk q hq)
      · rename_i hnlt
        refine .cons (fun q hq => ?_) (ih hrest)
        rcases mem_of_mem_insert hq with rfl | hq
        · exact lt_of_le_of_ne (not_lt.1 hnlt) hne
        · exact hk q hq

theorem Ascending.insertAll (hm : Ascending m) (pairs : List (String × α)) :
    Ascending (Keyed.insertAll m pairs) := by
  induction pairs generalizing m with
  | nil => exact hm
  | cons p rest ih => exact ih (hm.insert p.1 p.2)

theorem mem_of_mem_insertAll {p : String × α} {pairs : List (String × α)}
    (h : p ∈ insertAll m pairs) : p ∈ m ∨ p ∈ pairs := by
  induction pairs generalizing m with
  | nil => exact .inl h
  | cons q rest ih =>
    rcases ih h with h | h
    · rcases mem_of_mem_insert h with rfl | h
      · exact .inr List.mem_cons_self
      · exact .inl h
    · exact .inr (List.mem_cons_of_mem _ h)

theorem ascending_ofList (pairs : List (String × α)) : Ascending (ofList pairs) :=
  Ascending.insertAll List.Pairwise.nil pairs

/-- Of the pairs with a key the last one is found. -/
theorem get?_insertAll (m : Keyed α) (pairs : List (String × α)) (key : String) :
    get? key (insertAll m pairs) =
      ((pairs.reverse.find? (·.1 == key)).map (·.2)).or (get? key m) := by
  induction pairs generalizing m with
  | nil => rfl
  | cons p rest ih =>
    change get? key (insertAll (insert p.1 p.2 m) rest) = _
    rw [ih, List.reverse_cons, List.find?_append]
    cases rest.reverse.find? (·.1 == key) with
    | some found => rfl
    | none =>
      by_cases hk : p.1 = key
      · subst hk
        simp [get?_insert_self]
      · simp [get?_insert_of_ne hk, hk]

theorem get?_ofList (pairs : List (String × α)) (key : String) :
    get? key (ofList pairs) = (pairs.reverse.find? (·.1 == key)).map (·.2) := by
  rw [ofList, get?_insertAll, get?, Option.or_none]

end Keyed

namespace Setting

/-- A node is a table. -/
def IsTable : Setting → Prop
  | .table _ _ => True
  | _ => False

theorem not_isTable_scalar (o : Layer) (v : Scalar) : ¬(scalar o v).IsTable := not_false

theorem not_isTable_list (o : Layer) (items : List Setting) : ¬(list o items).IsTable := not_false

/-- The entries of all tables are in order. -/
inductive Ordered : Setting → Prop where
  | scalar (o : Layer) (v : Scalar) : Ordered (.scalar o v)
  | list (o : Layer) (items : List Setting) : Ordered (.list o items)
  | table {o : Layer} {l : Keyed Setting} : Keyed.Ascending l → (∀ p ∈ l, Ordered p.2) →
    Ordered (.table o l)

attribute [simp] Ordered.scalar Ordered.list

@[simp]
theorem ordered_ofText (o : Layer) (s : String) : (ofText o s).Ordered := .scalar ..

@[simp]
theorem ordered_ofTexts (o : Layer) (l : List String) : (ofTexts o l).Ordered := .list ..

variable {o o' : Layer} {l : Keyed Setting} {s low high lowest : Setting} {key : String}
  {path : List String} {layers : List Setting}

theorem Ordered.entries (h : Ordered (.table o l)) :
    Keyed.Ascending l ∧ ∀ p ∈ l, Ordered p.2 := by
  cases h with
  | table hasc hall => exact ⟨hasc, hall⟩

theorem Ordered.ofList {pairs : List (String × Setting)} (h : ∀ p ∈ pairs, Ordered p.2) :
    Ordered (.table o (Keyed.ofList pairs)) := by
  refine .table (Keyed.ascending_ofList pairs) fun p hp => ?_
  rcases Keyed.mem_of_mem_insertAll hp with hp | hp
  · cases hp
  · exact h p hp

theorem Ordered.singleton (h : s.Ordered) (o : Layer) (key : String) :
    Ordered (.table o [(key, s)]) := by
  refine .table (List.pairwise_singleton ..) fun p hp => ?_
  rw [List.mem_singleton.1 hp]
  exact h

theorem Ordered.insert (h : Ordered (.table o l)) (hs : s.Ordered) (key : String) :
    Ordered (.table o (Keyed.insert key s l)) := by
  obtain ⟨hasc, hall⟩ := h.entries
  refine .table (hasc.insert key s) fun p hp => ?_
  rcases Keyed.mem_of_mem_insert hp with rfl | hp
  · exact hs
  · exact hall p hp

@[simp]
theorem Ordered.nest (h : s.Ordered) (o : Layer) (path : List String) :
    (nest o path s).Ordered := by
  induction path with
  | nil => exact h
  | cons key path ih => exact ih.singleton o key

/-! ## Two layers -/

theorem merge_table (o o' : Layer) (low high : Keyed Setting) :
    (Setting.table o' low).merge (.table o high) = .table o (mergeEntries low high) := by
  rw [merge]

theorem merge_of_not_isTable (h : ¬high.IsTable) (low : Setting) : low.merge high = high := by
  rw [merge]
  rintro _ _ _ _ - rfl
  exact h trivial

theorem merge_onto (h : ¬low.IsTable) (high : Setting) : low.merge high = high := by
  rw [merge]
  rintro _ _ _ _ rfl -
  exact h trivial

theorem IsTable.merge (h : high.IsTable) (low : Setting) : (low.merge high).IsTable := by
  cases high with
  | scalar o v => exact h.elim
  | list o items => exact h.elim
  | table o l =>
    cases low with
    | table o' low =>
      rw [merge_table]
      trivial
    | scalar o' v => rwa [merge_onto (not_isTable_scalar o' v)]
    | list o' items => rwa [merge_onto (not_isTable_list o' items)]

/-- What is under a key of two tables that are merged. -/
theorem get?_mergeEntries {high : Keyed Setting} (hhigh : Keyed.Ascending high)
    (low : Keyed Setting) (key : String) :
    Keyed.get? key (mergeEntries low high) =
      match Keyed.get? key high with
      | some s => some (((Keyed.get? key low).map (·.merge s)).getD s)
      | none => Keyed.get? key low := by
  induction high generalizing low with
  | nil => rw [mergeEntries, Keyed.get?]
  | cons p rest ih =>
    obtain ⟨k, s⟩ := p
    obtain ⟨hk, hrest⟩ := List.pairwise_cons.1 hhigh
    rw [mergeEntries, ih hrest, Keyed.get?]
    by_cases hkey : k = key
    · subst hkey
      have hlater : Keyed.get? k rest = none :=
        Keyed.get?_eq_none_iff.2 fun q hq => (hk q hq).ne'
      rw [hlater, if_pos rfl]
      dsimp only
      rw [Keyed.get?_insert_self]
      cases Keyed.get? k low <;> rfl
    · rw [if_neg hkey, Keyed.get?_insert_of_ne hkey]

theorem Ordered.mergeEntries {low high : Keyed Setting} (hlow : Ordered (.table o low))
    (hmerge : ∀ p ∈ high, ∀ s : Setting, s.Ordered → (s.merge p.2).Ordered)
    (hhigh : ∀ p ∈ high, p.2.Ordered) : Ordered (.table o (mergeEntries low high)) := by
  induction high generalizing low with
  | nil =>
    rw [Setting.mergeEntries]
    exact hlow
  | cons p rest ih =>
    obtain ⟨k, s⟩ := p
    rw [Setting.mergeEntries]
    refine ih (hlow.insert ?_ k) (fun q hq => hmerge q (List.mem_cons_of_mem _ hq))
      fun q hq => hhigh q (List.mem_cons_of_mem _ hq)
    cases hold : Keyed.get? k low with
    | none => exact hhigh _ List.mem_cons_self
    | some old =>
      exact hmerge _ List.mem_cons_self old (hlow.entries.2 _ (Keyed.mem_of_get? hold))

/-- Layers that are merged have their entries in order. -/
theorem Ordered.merge (hlow : low.Ordered) (hhigh : high.Ordered) : (low.merge high).Ordered := by
  induction hhigh generalizing low with
  | scalar o v =>
    rw [merge_of_not_isTable (not_isTable_scalar o v)]
    exact .scalar o v
  | list o items =>
    rw [merge_of_not_isTable (not_isTable_list o items)]
    exact .list o items
  | @table o l hasc hall ih =>
    cases low with
    | scalar o' v =>
      rw [merge_onto (not_isTable_scalar o' v)]
      exact .table hasc hall
    | list o' items =>
      rw [merge_onto (not_isTable_list o' items)]
      exact .table hasc hall
    | table o' low =>
      rw [merge_table]
      have hlow' : Ordered (.table o low) := .table hlow.entries.1 hlow.entries.2
      exact hlow'.mergeEntries (fun p hp s hs => ih p hp hs) hall

theorem get?_cons (s : Setting) (key : String) (path : List String) :
    s.get? (key :: path) = (s.get? [key]).bind (get? path) := by
  cases s with
  | scalar o v => rfl
  | list o items => rfl
  | table o l =>
    rw [get?, get?]
    cases Keyed.get? key l <;> rfl

theorem get?_table (o : Layer) (l : Keyed Setting) (key : String) :
    (Setting.table o l).get? [key] = Keyed.get? key l := by
  rw [get?]
  cases Keyed.get? key l <;> rfl

theorem get?_of_not_isTable (h : ¬s.IsTable) (key : String) : s.get? [key] = none := by
  cases s with
  | scalar o v => rfl
  | list o items => rfl
  | table o l => exact absurd trivial h

/-- What is under a key of two layers that are merged, the higher of which is a table. -/
theorem get?_merge_table (hasc : Keyed.Ascending l) (o : Layer) (low : Setting) (key : String) :
    (low.merge (.table o l)).get? [key] =
      match Keyed.get? key l with
      | some s => some (((low.get? [key]).map (·.merge s)).getD s)
      | none => low.get? [key] := by
  by_cases hlow : low.IsTable
  · cases low with
    | scalar o' v => exact hlow.elim
    | list o' items => exact hlow.elim
    | table o' low => rw [merge_table, get?_table, get?_table, get?_mergeEntries hasc]
  · rw [merge_onto hlow, get?_table, get?_of_not_isTable hlow]
    cases Keyed.get? key l <;> rfl

/-- A layer that has only tables on the way to what is at a path, and nothing there. -/
def Passes : List String → Setting → Prop
  | key :: path, .table _ l => ∀ s, Keyed.get? key l = some s → s.Passes path
  | _, _ => False

theorem get?_of_passes (h : s.Passes path) : s.get? path = none := by
  induction path generalizing s with
  | nil => exact h.elim
  | cons key path ih =>
    cases s with
    | scalar o v => rfl
    | list o items => rfl
    | table o l =>
      rw [get?_cons, get?_table]
      cases hkey : Keyed.get? key l with
      | none => rfl
      | some s => exact ih (h s hkey)

/-- **A layer lets pass** what is below it at a path. -/
theorem get?_merge_of_passes (hhigh : high.Ordered) (h : high.Passes path) (low : Setting) :
    (low.merge high).get? path = low.get? path := by
  induction path generalizing low high with
  | nil => exact h.elim
  | cons key path ih =>
    cases high with
    | scalar o v => exact h.elim
    | list o items => exact h.elim
    | table o l =>
      obtain ⟨hasc, hall⟩ := hhigh.entries
      rw [get?_cons, get?_merge_table hasc, get?_cons low key path]
      cases hkey : Keyed.get? key l with
      | none => rfl
      | some s =>
        have hpass : s.Passes path := h s hkey
        cases low.get? [key] with
        | none => exact get?_of_passes hpass
        | some old => exact ih (hall _ (Keyed.mem_of_get? hkey)) hpass old

/-- There is nothing at a path, and on the way there are only tables or marks of absence. -/
def Lacks : List String → Setting → Prop
  | _ :: _, .scalar _ .absent => True
  | key :: path, .table _ l => ∀ s, Keyed.get? key l = some s → s.Lacks path
  | _, _ => False

theorem Passes.lacks (h : s.Passes path) : s.Lacks path := by
  induction path generalizing s with
  | nil => exact h.elim
  | cons key path ih =>
    cases s with
    | scalar o v => exact h.elim
    | list o items => exact h.elim
    | table o l => exact fun s hkey => ih (h s hkey)

theorem Lacks.merge (hhigh : high.Ordered) (hlow : low.Lacks path) (h : high.Passes path) :
    (low.merge high).Lacks path := by
  induction path generalizing low high with
  | nil => exact h.elim
  | cons key path ih =>
    cases high with
    | scalar o v => exact h.elim
    | list o items => exact h.elim
    | table o l =>
      cases low with
      | list o' items => exact hlow.elim
      | scalar o' v =>
        rw [merge_onto (not_isTable_scalar o' v)]
        exact h.lacks
      | table o' low =>
        obtain ⟨hasc, hall⟩ := hhigh.entries
        rw [merge_table]
        intro s hs
        rw [get?_mergeEntries hasc] at hs
        cases hkey : Keyed.get? key l with
        | none =>
          rw [hkey] at hs
          exact hlow s hs
        | some next =>
          rw [hkey] at hs
          have hpass : next.Passes path := h next hkey
          cases hold : Keyed.get? key low with
          | none =>
            rw [hold] at hs
            cases hs
            exact hpass.lacks
          | some old =>
            rw [hold] at hs
            cases hs
            exact ih (hall _ (Keyed.mem_of_get? hkey)) (hlow old hold) hpass

/-- **What a layer sets** stays, merged with what is below if there are tables. -/
theorem get?_merge_of_get? (hhigh : high.Ordered) (h : high.get? path = some s) (low : Setting) :
    (low.merge high).get? path = some (((low.get? path).map (·.merge s)).getD s) := by
  induction path generalizing low high with
  | nil =>
    cases h
    rfl
  | cons key path ih =>
    cases high with
    | scalar o v => cases h
    | list o items => cases h
    | table o l =>
      obtain ⟨hasc, hall⟩ := hhigh.entries
      rw [get?_cons, get?_merge_table hasc, get?_cons low key path]
      rw [get?_cons, get?_table] at h
      obtain ⟨next, hkey, hnext⟩ := Option.bind_eq_some_iff.1 h
      rw [hkey]
      cases low.get? [key] with
      | none => exact hnext
      | some old => exact ih (hall _ (Keyed.mem_of_get? hkey)) hnext old

/-! ## Any number of layers -/

/-- Layers on top of a lowest one, the highest first. -/
def stack (lowest : Setting) (layers : List Setting) : Setting :=
  layers.foldr (fun high low => low.merge high) lowest

theorem Ordered.stack (hlowest : lowest.Ordered) (h : ∀ layer ∈ layers, layer.Ordered) :
    (stack lowest layers).Ordered := by
  induction layers with
  | nil => exact hlowest
  | cons high rest ih =>
    obtain ⟨hhigh, hrest⟩ := List.forall_mem_cons.1 h
    exact (ih hrest).merge hhigh

theorem Lacks.stack (hlowest : lowest.Lacks path)
    (h : ∀ layer ∈ layers, layer.Ordered ∧ layer.Passes path) :
    (Setting.stack lowest layers).Lacks path := by
  induction layers with
  | nil => exact hlowest
  | cons high rest ih =>
    obtain ⟨⟨hhigh, hpass⟩, hrest⟩ := List.forall_mem_cons.1 h
    exact (ih hrest).merge hhigh hpass

/-- The highest layer that sets something at a path sets `s`, and the layers above it let it
pass. -/
inductive Wins (path : List String) (lowest : Setting) : List Setting → Setting → Prop where
  | lowest {s : Setting} : lowest.get? path = some s → Wins path lowest [] s
  | highest {high s : Setting} (rest : List Setting) : high.get? path = some s →
    Wins path lowest (high :: rest) s
  | lower {high s : Setting} {rest : List Setting} : high.Passes path → Wins path lowest rest s →
    Wins path lowest (high :: rest) s

theorem Wins.of_passes (h : ∀ layer ∈ layers, layer.Passes path) (hs : lowest.get? path = some s) :
    Wins path lowest layers s := by
  induction layers with
  | nil => exact .lowest hs
  | cons high rest ih =>
    obtain ⟨hhigh, hrest⟩ := List.forall_mem_cons.1 h
    exact .lower hhigh (ih hrest)

/-- **The highest layer that sets a value wins.** Where it sets a table, there is a table. -/
theorem Wins.get?_stack (h : Wins path lowest layers s)
    (hlayers : ∀ layer ∈ layers, layer.Ordered) :
    ∃ s', (stack lowest layers).get? path = some s' ∧ (s' = s ∨ s'.IsTable) := by
  induction h with
  | lowest hget => exact ⟨_, hget, .inl rfl⟩
  | @highest high s rest hget =>
    have hhigh := hlayers high List.mem_cons_self
    refine ⟨_, get?_merge_of_get? hhigh hget (stack lowest rest), ?_⟩
    cases (stack lowest rest).get? path with
    | none => exact .inl rfl
    | some old =>
      by_cases hs : s.IsTable
      · exact .inr (hs.merge old)
      · exact .inl (merge_of_not_isTable hs old)
  | lower hpass _ ih =>
    obtain ⟨hhigh, hrest⟩ := List.forall_mem_cons.1 hlayers
    obtain ⟨s', hget, hs'⟩ := ih hrest
    exact ⟨s', (get?_merge_of_passes hhigh hpass _).trans hget, hs'⟩

end Setting

end ShaderModules
