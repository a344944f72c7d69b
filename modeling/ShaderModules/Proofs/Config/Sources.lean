import ShaderModules.Proofs.Config.Layers

/-!
# Where layers come from

The layers of a configuration are the defaults, a TOML document, environment variables and the
options of a command line. In each of them the entries of all tables are in the order of their keys
(`Setting.Ordered`), which is what merging them relies on.
-/

namespace ShaderModules

/-! ## Documents -/

mutual

/-- The entries of what a TOML value stands for are in order. -/
theorem Toml.Value.ordered_toSetting (o : Layer) : ∀ v : Toml.Value, (v.toSetting o).Ordered
  | .text s => by rw [Toml.Value.toSetting]; exact .scalar ..
  | .integer n => by rw [Toml.Value.toSetting]; exact .scalar ..
  | .float x => by rw [Toml.Value.toSetting]; exact .scalar ..
  | .flag b => by rw [Toml.Value.toSetting]; exact .scalar ..
  | .moment m => by rw [Toml.Value.toSetting]; exact (Setting.Ordered.scalar ..).singleton ..
  | .list items => by rw [Toml.Value.toSetting]; exact .list ..
  | .table entries => by
    rw [Toml.Value.toSetting]
    exact .ofList (Toml.ordered_entrySettings o entries)

theorem Toml.ordered_entrySettings (o : Layer) :
    ∀ entries : List (String × Toml.Value), ∀ p ∈ entrySettings o entries, p.2.Ordered
  | [] => by rw [entrySettings]; nofun
  | (k, v) :: rest => by
    rw [entrySettings]
    exact List.forall_mem_cons.2 ⟨v.ordered_toSetting o, Toml.ordered_entrySettings o rest⟩

end

/-! ## Environment variables -/

namespace Variable

variable {fuel : Nat} {s rest : List Char} {v : Setting}

/-- The entries that are read so far are in order. -/
def Part.Ordered : Part → Prop
  | .entries read => (Setting.table .environment read).Ordered
  | _ => True

theorem ordered_of_readPart? (part : Part) (hpart : part.Ordered)
    (h : readPart? fuel part s = some (v, rest)) : v.Ordered := by
  induction fuel generalizing part s v rest with
  | zero => cases h
  | succ fuel ih =>
    cases part with
    | value =>
      rw [readPart?] at h
      split at h
      · cases h
        exact .scalar ..
      · cases h
        exact .scalar ..
      · obtain ⟨⟨v', rest'⟩, hvalue, hv⟩ := Option.bind_eq_some_iff.1 h
        cases hv
        exact ih (.entries []) (.table List.Pairwise.nil nofun) hvalue
      · obtain ⟨⟨v', rest'⟩, hvalue, hv⟩ := Option.bind_eq_some_iff.1 h
        cases hv
        exact ih (.items []) trivial hvalue
      · obtain ⟨⟨v', rest'⟩, hvalue, hv⟩ := Option.bind_eq_some_iff.1 h
        obtain ⟨⟨text, rest''⟩, -, hv'⟩ := Option.map_eq_some_iff.1 hvalue
        cases hv
        cases hv'
        exact .scalar ..
      · cases h
        exact .scalar ..
      · cases h
      · cases h
        exact .scalar ..
    | items read =>
      rw [readPart?.eq_def] at h
      dsimp only at h
      split at h
      · cases h
        exact .list ..
      · obtain ⟨⟨v', rest'⟩, hvalue, h⟩ := Option.bind_eq_some_iff.1 h
        dsimp only at h
        split at h
        · exact ih (.items (v' :: read)) trivial h
        · cases h
          exact .list ..
        · cases h
    | entries read =>
      rw [readPart?.eq_def] at h
      dsimp only at h
      split at h
      · cases h
        exact hpart
      · obtain ⟨⟨k, rest'⟩, -, h⟩ := Option.bind_eq_some_iff.1 h
        dsimp only at h
        split at h
        · obtain ⟨⟨v', rest''⟩, hvalue, h⟩ := Option.bind_eq_some_iff.1 h
          have hread : (Setting.table .environment (Keyed.insert k v' read)).Ordered :=
            hpart.insert (ih .value trivial hvalue) k
          dsimp only at h
          split at h
          · exact ih (.entries (Keyed.insert k v' read)) hread h
          · cases h
            exact hread
          · cases h
        · cases h

theorem ordered_readValue (text : String) : (readValue text).Ordered := by
  unfold readValue
  dsimp only
  split
  · rename_i v h
    exact ordered_of_readPart? .value trivial h
  · exact .scalar ..

theorem ordered_layer (environment : List (String × String)) : (layer environment).Ordered := by
  have hempty : (Setting.table .environment []).Ordered := .table List.Pairwise.nil nofun
  unfold layer
  generalize Setting.table .environment [] = start at hempty
  induction environment generalizing start with
  | nil => exact hempty
  | cons p rest ih =>
    rw [List.foldl_cons]
    refine ih _ ?_
    dsimp only
    split
    · exact hempty.merge ((ordered_readValue p.2).nest ..)
    · exact hempty

end Variable

/-! ## Defaults -/

namespace Config

@[simp]
theorem ordered_flagOf (o : Layer) (b : Bool) : (flagOf o b).Ordered := .scalar ..

@[simp]
theorem ordered_optionOf {α : Type} (o : Layer) {f : α → Setting} (h : ∀ a, (f a).Ordered)
    (v : Option α) : (optionOf o f v).Ordered := by
  cases v with
  | none => exact .scalar ..
  | some a => exact h a

@[simp]
theorem ordered_commandOf (o : Layer) (c : ExternalCommand) : (commandOf o c).Ordered :=
  .ofList (by simp)

@[simp]
theorem ordered_compileOf (o : Layer) (c : CompileOptions) : (compileOf o c).Ordered :=
  .ofList (by simp)

@[simp]
theorem ordered_namingOf (o : Layer) (n : Naming) : (namingOf o n).Ordered := by
  have hsuffixes : (tableOf o [("vertex", Setting.ofText o n.suffixes.vertex),
      ("fragment", .ofText o n.suffixes.fragment)]).Ordered := .ofList (by simp)
  exact .ofList (by simp [hsuffixes])

/-- The entries of a configuration as a layer are in order. -/
theorem ordered_toSetting (o : Layer) (c : Config) : (c.toSetting o).Ordered := by
  have hoptions (f : String × String → String × Setting) (hf : ∀ p, (f p).2.Ordered) :
      (tableOf o (c.resolverOptions.map f)).Ordered :=
    .ofList (List.forall_mem_map.2 fun p _ => hf p)
  exact .ofList (by simp [hoptions])

end Config

/-! ## Options -/

namespace Arguments

theorem ordered_given {α : Type} {f : α → Setting} (h : ∀ a, (f a).Ordered) (key : String)
    (v : Option α) : ∀ p ∈ given key f v, p.2.Ordered := by
  cases v with
  | none => nofun
  | some a => exact List.forall_mem_singleton.2 (h a)

/-- The entries of the layer of the command line are in order. -/
theorem ordered_layer (a : Arguments) : a.layer.Ordered := by
  refine .ofList ?_
  simp only [List.forall_mem_append]
  refine ⟨⟨⟨⟨⟨⟨⟨⟨⟨?_, ?_⟩, ?_⟩, ?_⟩, ?_⟩, ?_⟩, ?_⟩, ?_⟩, ?_⟩, ?_⟩ <;>
    exact ordered_given (fun _ => by simp) _ _

end Arguments

end ShaderModules
