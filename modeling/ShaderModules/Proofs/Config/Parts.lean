import ShaderModules.Proofs.Config.Layers
import ShaderModules.Proofs.Fallible

/-!
# Parts of what is read

What is read from settings is a record of records. A part of it is what is read from the node at a
path (`Reading.ReadsAt`), or a default if there is no such node (`Reading.DefaultsAt`). Both are
shown field by field: a part of a field is a part of the record (`ReadsAt.field`,
`DefaultsAt.field`), as the other fields leave it alone (`Reading.Sets`).
-/

namespace ShaderModules.Reading

variable {α β γ : Type}

/-- A part of what is read is read from the node at a path. -/
def ReadsAt (whole : Reading α) (path : List String) (part : Reading β) (get : α → β) : Prop :=
  ∀ s a x, s.Ordered → whole.run s = .ok a → s.get? path = some x → part.run x = .ok (get a)

/-- A part of what is read has a default if there is nothing at a path. -/
def DefaultsAt (whole : Reading α) (path : List String) (get : α → β) (default : β) : Prop :=
  ∀ s a, s.Ordered → whole.run s = .ok a → s.Lacks path → get a = default

theorem ReadsAt.here (r : Reading α) : ReadsAt r [] r fun a => a := by
  intro s a x _ hrun hget
  cases hget
  exact hrun

theorem run_map_eq_ok_iff {r : Reading β} {f : β → α} {s : Setting} {a : α} :
    (f <$> r).run s = .ok a ↔ ∃ b, r.run s = .ok b ∧ f b = a := by
  change (r.run s).map f = .ok a ↔ _
  exact Fallible.map_eq_ok_iff

/-! ## Records -/

variable {name key : String} {blank a : α} {fields : List (Field Reading α)} {r : Reading γ}
  {get : α → γ} {path : List String} {part : Reading β} {g : γ → β} {o : Layer}
  {entries : Keyed Setting}

/-- A field leaves a part of the record alone. -/
def Leaves (get : α → γ) (field : Field Reading α) : Prop :=
  ∀ s u a, field.update.run s = .ok u → get (u a) = get a

theorem leaves_map {absence : Absence} {r : Reading β} {set : β → α → α}
    (h : ∀ v a, get (set v a) = get a) : Leaves get ⟨name, absence, set <$> r⟩ := by
  intro s u a hrun
  obtain ⟨v, -, rfl⟩ := run_map_eq_ok_iff.1 hrun
  exact h v a

/-- The field of a name sets a part of the record, and no other field does. -/
structure Sets (fields : List (Field Reading α)) (key : String) (r : Reading γ)
    (get : α → γ) : Prop where
  own : ∃ absence set, fields.find? (·.name == key) = some ⟨key, absence, set <$> r⟩ ∧
    ∀ v a, get (set v a) = v
  others : ∀ field ∈ fields, field.name ≠ key → Leaves get field

/-- What one entry does to a record. -/
def applyEntry (fields : List (Field Reading α)) (acc : α) (p : String × Setting) :
    Except SettingError α :=
  match fields.find? (·.name == p.1) with
  | some field =>
    match field.update.run p.2 with
    | .ok u => .ok (u acc)
    | .error e => .error (e.below p.1)
  | none => .ok acc

theorem exists_of_byName (h : byName o blank fields entries = .ok a) :
    entries.foldlM (applyEntry fields) blank = .ok a ∧
      ∀ f ∈ fields, f.absence = .required → (Keyed.get? f.name entries).isSome = true := by
  have hbyName : byName o blank fields entries =
      entries.foldlM (applyEntry fields) blank >>= fun acc =>
        match fields.find? fun f =>
          f.absence = .required && (Keyed.get? f.name entries).isNone with
        | some f => .error { mismatch := .missingField f.name, origin := some o }
        | none => .ok acc := rfl
  rw [hbyName] at h
  obtain ⟨acc, hfold, h⟩ := Fallible.bind_eq_ok_iff.1 h
  split at h
  · cases h
  · rename_i hnone
    cases h
    refine ⟨hfold, fun f hf hreq => ?_⟩
    have hgiven := List.find?_eq_none.1 hnone f hf
    simpa [hreq, Option.isSome_iff_ne_none] using hgiven

/-- Entries of other names leave a part alone. -/
theorem Sets.foldlM_of_ne (h : Sets fields key r get) {acc : α}
    (hentries : ∀ p ∈ entries, p.1 ≠ key)
    (hrun : entries.foldlM (applyEntry fields) acc = .ok a) : get a = get acc := by
  induction entries generalizing acc with
  | nil =>
    cases hrun
    rfl
  | cons p rest ih =>
    obtain ⟨hp, hrest⟩ := List.forall_mem_cons.1 hentries
    rw [List.foldlM_cons] at hrun
    obtain ⟨next, happly, hrun⟩ := Fallible.bind_eq_ok_iff.1 hrun
    refine (ih hrest hrun).trans ?_
    unfold applyEntry at happly
    split at happly
    · rename_i field hfield
      split at happly
      · rename_i u hu
        cases happly
        have hname : field.name = p.1 := by simpa using List.find?_some hfield
        exact h.others field (List.mem_of_find?_eq_some hfield) (hname ▸ hp) _ _ _ hu
      · cases happly
    · cases happly
      rfl

/-- **A field of a record** is read from the entry of its name. -/
theorem Sets.run_entry (h : Sets fields key r get) (hasc : Keyed.Ascending entries)
    (hrun : byName o blank fields entries = .ok a) {x : Setting}
    (hx : Keyed.get? key entries = some x) : r.run x = .ok (get a) := by
  obtain ⟨hfold, -⟩ := exists_of_byName hrun
  obtain ⟨before, after, rfl, -, hafter⟩ := Keyed.exists_of_get? hx hasc
  obtain ⟨absence, set, hfield, hset⟩ := h.own
  rw [List.foldlM_append] at hfold
  obtain ⟨acc, -, hfold⟩ := Fallible.bind_eq_ok_iff.1 hfold
  rw [List.foldlM_cons] at hfold
  obtain ⟨next, happly, hfold⟩ := Fallible.bind_eq_ok_iff.1 hfold
  rw [applyEntry, hfield] at happly
  dsimp only at happly
  split at happly
  · rename_i u hu
    cases happly
    obtain ⟨v, hv, rfl⟩ := run_map_eq_ok_iff.1 hu
    rw [h.foldlM_of_ne hafter hfold, hset, hv]
  · cases happly

theorem Sets.eq_blank (h : Sets fields key r get)
    (hrun : byName o blank fields entries = .ok a) (hnone : Keyed.get? key entries = none) :
    get a = get blank :=
  h.foldlM_of_ne (Keyed.get?_eq_none_iff.1 hnone) (exists_of_byName hrun).1

/-- What is read is a record with a field, the blank of which is given. -/
inductive HasField (whole : Reading α) (blank : α) (key : String) (r : Reading γ)
    (get : α → γ) : Prop where
  | record (name : String) {fields : List (Field Reading α)} : whole = record name blank fields →
    Sets fields key r get → HasField whole blank key r get

variable {whole : Reading α}

/-- A field that sets a part of the record, while the others leave it alone. -/
theorem HasField.of_find? {name : String} {absence : Absence} {set : γ → α → α}
    (hwhole : whole = Reading.record name blank fields)
    (hfield : fields.find? (·.name == key) = some ⟨key, absence, set <$> r⟩)
    (hset : ∀ v a, get (set v a) = v)
    (hothers : ∀ field ∈ fields, field.name ≠ key → Leaves get field) :
    HasField whole blank key r get :=
  .record name hwhole ⟨⟨absence, set, hfield, hset⟩, hothers⟩

/-- A part of a field is a part of the record. -/
theorem ReadsAt.field (hpart : ReadsAt r path part g) (h : HasField whole blank key r get) :
    ReadsAt whole (key :: path) part (g ∘ get) := by
  obtain ⟨name, rfl, h⟩ := h
  intro s a x hordered hrun hget
  rw [Setting.get?_cons] at hget
  obtain ⟨next, hnext, hrest⟩ := Option.bind_eq_some_iff.1 hget
  cases s with
  | scalar o v => cases hnext
  | list o items => cases hnext
  | table o entries =>
    rw [Setting.get?_table] at hnext
    obtain ⟨hasc, hall⟩ := hordered.entries
    have hfield : r.run next = .ok (get a) := h.run_entry hasc hrun hnext
    exact hpart next (get a) x (hall _ (Keyed.mem_of_get? hnext)) hfield hrest

/-- A field is a part of the record. -/
theorem ReadsAt.leaf (h : HasField whole blank key r get) : ReadsAt whole [key] r get :=
  (ReadsAt.here r).field h

/-- A default of a part of a field is a default of a part of the record, if it is what a record
without the field has. -/
theorem DefaultsAt.field {default : β} (hpart : DefaultsAt r path g default)
    (h : HasField whole blank key r get) (hblank : g (get blank) = default) :
    DefaultsAt whole (key :: path) (g ∘ get) default := by
  obtain ⟨name, rfl, h⟩ := h
  intro s a hordered hrun hlacks
  cases s with
  | scalar o v => cases hrun
  | list o items => exact hlacks.elim
  | table o entries =>
    obtain ⟨hasc, hall⟩ := hordered.entries
    cases hkey : Keyed.get? key entries with
    | none => exact (congrArg g (h.eq_blank hrun hkey)).trans hblank
    | some next =>
      exact hpart next (get a) (hall _ (Keyed.mem_of_get? hkey)) (h.run_entry hasc hrun hkey)
        (hlacks next hkey)

/-- A record without a field that is not required has the default there. -/
theorem DefaultsAt.optional (h : HasField whole blank key r get) :
    DefaultsAt whole [key] get (get blank) := by
  obtain ⟨name, rfl, h⟩ := h
  intro s a hordered hrun hlacks
  cases s with
  | scalar o v => cases hrun
  | list o items => exact hlacks.elim
  | table o entries =>
    refine h.eq_blank hrun ?_
    cases hkey : Keyed.get? key entries with
    | none => rfl
    | some next => exact (hlacks next hkey).elim

/-- No record lacks a field that is required. -/
theorem DefaultsAt.required {field : Field Reading α} (hfield : field ∈ fields)
    (hreq : field.absence = .required) (get : α → γ) (default : γ) :
    DefaultsAt (record name blank fields) [field.name] get default := by
  intro s a hordered hrun hlacks
  cases s with
  | scalar o v => cases hrun
  | list o items => exact hlacks.elim
  | table o entries =>
    obtain ⟨x, hx⟩ := Option.isSome_iff_exists.1 ((exists_of_byName hrun).2 field hfield hreq)
    exact (hlacks x hx).elim

/-! ## Values that may be absent -/

/-- A part of a value that may be absent. -/
theorem ReadsAt.option {get : α → β} {part' : Reading γ}
    {get' : Option α → γ} (h : ReadsAt whole (key :: path) part get)
    (hpart : ∀ x a, part.run x = .ok (get a) → part'.run x = .ok (get' (some a))) :
    ReadsAt (option whole) (key :: path) part' get' := by
  intro s a x hordered hrun hget
  cases s with
  | scalar o v => cases hget
  | list o items => cases hget
  | table o entries =>
    obtain ⟨b, hwhole, rfl⟩ := Fallible.map_eq_ok_iff.1 hrun
    exact hpart x b (h _ b x hordered hwhole hget)

/-- A default of a part of a value that may be absent. -/
theorem DefaultsAt.option {get : α → β} {default : β} {get' : Option α → γ}
    (h : DefaultsAt whole (key :: path) get default)
    (hsome : ∀ a, get a = default → get' (some a) = get' none) :
    DefaultsAt (option whole) (key :: path) get' (get' none) := by
  intro s a hordered hrun hlacks
  cases s with
  | list o items => exact hlacks.elim
  | scalar o v =>
    cases v with
    | absent =>
      cases hrun
      rfl
    | text | character | flag | natural | integer | float => exact hlacks.elim
  | table o entries =>
    obtain ⟨b, hwhole, rfl⟩ := Fallible.map_eq_ok_iff.1 hrun
    exact hsome b (h _ b hordered hwhole hlacks)

/-! ## Named values -/

/-- No named value is read from a table. -/
theorem choice_table (type : String) (options : List (String × α)) (o : Layer)
    (entries : Keyed Setting) (a : α) : (choice type options).run (.table o entries) ≠ .ok a := by
  cases entries with
  | nil => nofun
  | cons p rest =>
    unfold choice
    dsimp only
    cases options.find? (·.1 == p.1) <;> nofun

/-! ## Texts by name -/

/-- The text of an entry, with its name. -/
def namedText (p : String × Setting) : Except SettingError (String × String) :=
  match (textAs "a string").run p.2 with
  | .ok t => .ok (p.1, t)
  | .error e => .error (e.below p.1)

/-- The texts that are read have the names of the entries. -/
theorem get?_of_mapM {texts : Keyed String} (h : entries.mapM namedText = .ok texts)
    (key : String) :
    match Keyed.get? key entries with
    | some x => ∃ t, (textAs "a string").run x = .ok t ∧ Keyed.get? key texts = some t
    | none => Keyed.get? key texts = none := by
  induction entries generalizing texts with
  | nil =>
    cases h
    rfl
  | cons p rest ih =>
    obtain ⟨k, s⟩ := p
    rw [List.mapM_cons] at h
    obtain ⟨named, hnamed, h⟩ := Fallible.bind_eq_ok_iff.1 h
    obtain ⟨more, hrest, h⟩ := Fallible.bind_eq_ok_iff.1 h
    cases h
    rw [namedText] at hnamed
    split at hnamed
    · rename_i t htext
      cases hnamed
      rw [Keyed.get?]
      by_cases hk : k = key
      · rw [if_pos hk]
        exact ⟨t, htext, by simp [Keyed.get?, hk]⟩
      · rw [if_neg hk, Keyed.get?, if_neg hk]
        exact ih hrest
    · cases hnamed

theorem readsAt_table (key : String) :
    ReadsAt table [key] (some <$> textAs "a string") (Keyed.get? key) := by
  intro s a x _ hrun hget
  cases s with
  | scalar o v => cases hget
  | list o items => cases hget
  | table o entries =>
    have htexts := get?_of_mapM hrun key
    rw [Setting.get?_table] at hget
    rw [hget] at htexts
    obtain ⟨t, ht, htext⟩ := htexts
    rw [htext]
    exact run_map_eq_ok_iff.2 ⟨t, ht, rfl⟩

theorem defaultsAt_table (key : String) : DefaultsAt table [key] (Keyed.get? key) none := by
  intro s a _ hrun hlacks
  cases s with
  | scalar o v => cases hrun
  | list o items => exact hlacks.elim
  | table o entries =>
    have htexts := get?_of_mapM hrun key
    cases hkey : Keyed.get? key entries with
    | some x => exact (hlacks x hkey).elim
    | none =>
      rw [hkey] at htexts
      exact htexts

end ShaderModules.Reading
