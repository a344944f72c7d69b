import ShaderModules.Proofs.Config.Parts

/-!
# Leaves of a configuration

What is configured has leaves: the settings that are not records (`Config.IsLeaf`). There are no
others: they make up the configuration (`Config.eq_of_leaves`). Each leaf is read from the node at
its path (`IsLeaf.readsAt`) and never from a table (`IsLeaf.not_isTable`). The layer of the defaults
sets a leaf, or the leaf has its default where nothing is set (`IsLeaf.default`). The layer of the
command line sets a leaf if there is an option for it that is given, and lets what is below pass
otherwise (`IsLeaf.flag_some`, `IsLeaf.flag_none`).
-/

namespace ShaderModules

namespace Config

/-- A setting that is not a record: where it is, how it is read, what is configured by it, and what
the command line says of it. -/
structure Leaf (β : Type) where
  path : List String
  reading : Reading β
  value : Config → β
  flag : Arguments → Option β := fun _ => none

/-- The leaves of a configuration. -/
inductive IsLeaf : {β : Type} → Leaf β → Prop where
  | root : IsLeaf
    { path := ["root"], reading := .option Format.path, value := Config.root }
  | included : IsLeaf
    { path := ["include"], reading := Format.oneOrMany, value := Config.included
      flag := fun a => if a.included.isEmpty then none else some a.included }
  | excluded : IsLeaf
    { path := ["exclude"], reading := Format.oneOrMany, value := Config.excluded
      flag := fun a => if a.excluded.isEmpty then none else some a.excluded }
  | basedir : IsLeaf
    { path := ["basedir"], reading := .option Format.path, value := Config.basedir
      flag := fun a => a.basedir.map some }
  | resolverOption (key : String) : IsLeaf
    { path := ["resolver_options", key], reading := some <$> Format.text
      value := Keyed.get? key ∘ Config.resolverOptions }
  | preprocessorProgram : IsLeaf
    { path := ["preprocessor", "program"], reading := some <$> Format.path
      value := Option.map ExternalCommand.program ∘ Config.preprocessor
      flag := fun a => a.preprocessor.map some }
  | preprocessorArgs : IsLeaf
    { path := ["preprocessor", "args"], reading := Format.list Format.text
      value := (fun p => (p.map ExternalCommand.args).getD []) ∘ Config.preprocessor }
  | compilerProgram : IsLeaf
    { path := ["compiler", "program"], reading := Format.path
      value := ExternalCommand.program ∘ Config.compiler, flag := Arguments.compiler }
  | compilerArgs : IsLeaf
    { path := ["compiler", "args"], reading := Format.list Format.text
      value := ExternalCommand.args ∘ Config.compiler }
  | disableRewriting : IsLeaf
    { path := ["compile", "disableRewriting"], reading := Format.flag
      value := CompileOptions.disableRewriting ∘ Config.compile }
  | format : IsLeaf
    { path := ["compile", "format"]
      reading := Format.choice "OutputFormat" [("json", OutputFormat.json)]
      value := CompileOptions.format ∘ Config.compile }
  | keepSymbols : IsLeaf
    { path := ["compile", "keepSymbols"], reading := Format.flag
      value := CompileOptions.keepSymbols ∘ Config.compile }
  | prettyPrint : IsLeaf
    { path := ["compile", "prettyPrint"], reading := Format.flag
      value := CompileOptions.prettyPrint ∘ Config.compile }
  | renames : IsLeaf
    { path := ["compile", "renaming"]
      reading := Format.choice "Renaming" [("all", Renaming.all),
        ("internal-only", Renaming.internalOnly), ("none", Renaming.none)]
      value := CompileOptions.renames ∘ Config.compile }
  | vertexSuffix : IsLeaf
    { path := ["synthesis", "suffixes", "vertex"], reading := Format.text
      value := (Suffixes.vertex ∘ Naming.suffixes) ∘ Config.naming }
  | fragmentSuffix : IsLeaf
    { path := ["synthesis", "suffixes", "fragment"], reading := Format.text
      value := (Suffixes.fragment ∘ Naming.suffixes) ∘ Config.naming }
  | defaultExport : IsLeaf
    { path := ["synthesis", "default_export"], reading := Format.text
      value := Naming.defaultExport ∘ Config.naming }
  | helperPath : IsLeaf
    { path := ["synthesis", "helper_path"], reading := Format.text
      value := Naming.helperPath ∘ Config.naming, flag := Arguments.helperPath }
  | outDir : IsLeaf
    { path := ["out_dir"], reading := .option Format.path, value := Config.outDir
      flag := fun a => a.outDir.map some }
  | extension : IsLeaf
    { path := ["extension"], reading := Format.text, value := Config.extension }
  | emitSourceMap : IsLeaf
    { path := ["emit_source_map"], reading := Format.flag, value := Config.emitSourceMap
      flag := fun a => if a.emitSourceMap then some true else none }
  | jobs : IsLeaf
    { path := ["jobs"], reading := .option .natural, value := Config.jobs
      flag := fun a => a.jobs.map some }
  | logLevel : IsLeaf
    { path := ["log_level"], reading := Format.choice "LogLevel" Level.options
      value := Config.logLevel, flag := Arguments.logLevel }

/-- **A configuration is its leaves.** -/
theorem eq_of_leaves {c c' : Config} (hc : Keyed.Ascending c.resolverOptions)
    (hc' : Keyed.Ascending c'.resolverOptions)
    (h : ∀ {β : Type} {leaf : Leaf β}, IsLeaf leaf → leaf.value c = leaf.value c') : c = c' := by
  have hoptions : c.resolverOptions = c'.resolverOptions :=
    hc.ext hc' fun key => h (.resolverOption key)
  have hpreprocessor : c.preprocessor = c'.preprocessor := by
    have hprogram : c.preprocessor.map _ = c'.preprocessor.map _ := h .preprocessorProgram
    have hargs : (c.preprocessor.map _).getD [] = (c'.preprocessor.map _).getD [] :=
      h .preprocessorArgs
    revert hprogram hargs
    cases c.preprocessor <;> cases c'.preprocessor
    · exact fun _ _ => rfl
    · nofun
    · nofun
    · rename_i p p'
      cases p
      cases p'
      simpa using And.intro
  rcases c with ⟨_, _, _, _, _, _, ⟨_, _⟩, ⟨_, _, _, _, _⟩, ⟨⟨_, _⟩, _, _⟩, _, _, _, _, _⟩
  rcases c' with ⟨_, _, _, _, _, _, ⟨_, _⟩, ⟨_, _, _, _, _⟩, ⟨⟨_, _⟩, _, _⟩, _, _, _, _, _⟩
  simp only [Config.mk.injEq, ExternalCommand.mk.injEq, CompileOptions.mk.injEq, Naming.mk.injEq,
    Suffixes.mk.injEq]
  exact ⟨h .root, h .included, h .excluded, h .basedir, hoptions, hpreprocessor,
    ⟨h .compilerProgram, h .compilerArgs⟩, ⟨h .disableRewriting, trivial, h .keepSymbols,
      h .prettyPrint, h .renames⟩, ⟨⟨h .vertexSuffix, h .fragmentSuffix⟩, h .defaultExport,
      h .helperPath⟩, h .outDir, h .extension, h .emitSourceMap, h .jobs, h .logLevel⟩

open Reading

variable {β : Type} {leaf : Leaf β}

/-! ## Leaves of what is read -/

theorem hasField_compiler :
    HasField schema {} "compiler" ExternalCommand.format Config.compiler :=
  .of_find? rfl rfl (fun _ _ => rfl) (by simp [leaves_map])

theorem hasField_preprocessor :
    HasField schema {} "preprocessor" (.option ExternalCommand.format) Config.preprocessor :=
  .of_find? rfl rfl (fun _ _ => rfl) (by simp [leaves_map])

theorem hasField_resolverOptions :
    HasField schema {} "resolver_options" table Config.resolverOptions :=
  .of_find? rfl rfl (fun _ _ => rfl) (by simp [leaves_map])

theorem hasField_compile : HasField schema {} "compile" CompileOptions.schema Config.compile :=
  .of_find? rfl rfl (fun _ _ => rfl) (by simp [leaves_map])

theorem hasField_naming : HasField schema {} "synthesis" Naming.format Config.naming :=
  .of_find? rfl rfl (fun _ _ => rfl) (by simp [leaves_map])

theorem hasField_suffixes : HasField Naming.format {} "suffixes" Suffixes.format Naming.suffixes :=
  .of_find? rfl rfl (fun _ _ => rfl) (by simp [leaves_map])

theorem hasField_program :
    HasField ExternalCommand.format { program := "" } "program" Format.path
      ExternalCommand.program :=
  .of_find? rfl rfl (fun _ _ => rfl) (by simp [leaves_map])

theorem hasField_args :
    HasField ExternalCommand.format { program := "" } "args" (Format.list Format.text)
      ExternalCommand.args :=
  .of_find? rfl rfl (fun _ _ => rfl) (by simp [leaves_map])

theorem IsLeaf.readsAt (h : IsLeaf leaf) : ReadsAt schema leaf.path leaf.reading leaf.value := by
  cases h with
  | root | included | excluded | basedir | outDir | extension | emitSourceMap | jobs | logLevel =>
    exact .leaf (.of_find? rfl rfl (fun _ _ => rfl) (by simp [leaves_map]))
  | disableRewriting | format | keepSymbols | prettyPrint | renames =>
    dsimp only
    exact ReadsAt.field (.leaf (.of_find? rfl rfl (fun _ _ => rfl) (by simp [leaves_map])))
      hasField_compile
  | defaultExport | helperPath =>
    dsimp only
    exact ReadsAt.field (.leaf (.of_find? rfl rfl (fun _ _ => rfl) (by simp [leaves_map])))
      hasField_naming
  | vertexSuffix | fragmentSuffix =>
    dsimp only
    exact ReadsAt.field (.field (.leaf (.of_find? rfl rfl (fun _ _ => rfl)
      (by simp [leaves_map]))) hasField_suffixes) hasField_naming
  | compilerProgram => exact (ReadsAt.leaf hasField_program).field hasField_compiler
  | compilerArgs => exact (ReadsAt.leaf hasField_args).field hasField_compiler
  | preprocessorProgram =>
    dsimp only
    refine ReadsAt.field (.option (.leaf hasField_program) fun x a h => ?_) hasField_preprocessor
    exact run_map_eq_ok_iff.2 ⟨_, h, rfl⟩
  | preprocessorArgs =>
    dsimp only
    exact ReadsAt.field (.option (.leaf hasField_args) fun x a h => h) hasField_preprocessor
  | resolverOption key => exact (readsAt_table key).field hasField_resolverOptions

/-- No leaf is read from a table. -/
theorem IsLeaf.not_isTable (h : IsLeaf leaf) {s : Setting} {v : β}
    (hrun : leaf.reading.run s = .ok v) : ¬s.IsTable := by
  intro hs
  cases s with
  | scalar o v => exact hs
  | list o items => exact hs
  | table o entries =>
    cases h with
    | format | renames | logLevel => exact choice_table _ _ o entries v hrun
    | _ => cases hrun

/-! ## The defaults -/

/-- The layer of the defaults is read as the defaults. -/
theorem run_defaults : schema.run (({} : Config).toSetting .defaults) = .ok {} := rfl

/-- The defaults set a leaf, or a leaf that is not set has its default. -/
theorem IsLeaf.default (h : IsLeaf leaf) :
    ((({} : Config).toSetting .defaults).get? leaf.path).isSome = true ∨
      ((({} : Config).toSetting .defaults).Lacks leaf.path ∧
        DefaultsAt schema leaf.path leaf.value (leaf.value {})) := by
  cases h with
  | resolverOption key =>
    dsimp only
    refine .inr ⟨?_, .field (defaultsAt_table key) hasField_resolverOptions rfl⟩
    intro s hs
    cases hs
    intro s hs
    cases hs
  | preprocessorProgram =>
    dsimp only
    have hprogram : DefaultsAt ExternalCommand.format ["program"] (fun _ => true) false :=
      .required List.mem_cons_self rfl _ _
    refine .inr ⟨?_, .field (.option hprogram nofun) hasField_preprocessor rfl⟩
    intro s hs
    cases hs
    trivial
  | preprocessorArgs =>
    dsimp only
    have hargs : DefaultsAt ExternalCommand.format ["args"] ExternalCommand.args [] :=
      .optional hasField_args
    refine .inr ⟨?_, .field (.option hargs fun a ha => ha) hasField_preprocessor rfl⟩
    intro s hs
    cases hs
    trivial
  | _ => exact .inl (by decide)

/-! ## The command line -/

/-- Texts are read as they are given. -/
theorem run_ofTexts (o : Layer) (l : List String) : oneOrMany.run (.ofTexts o l) = .ok l := by
  have htexts : (l.map (Setting.ofText o)).mapM plainText? = some l := by
    induction l with
    | nil => rfl
    | cons t rest ih =>
      rw [List.map_cons, List.mapM_cons, ih]
      rfl
  dsimp only [oneOrMany, Setting.ofTexts]
  rw [htexts]

/-- What the options that are given set under a key. -/
def option? (a : Arguments) (key : String) : Option Setting :=
  let text (s : String) : Setting := .ofText .commandLine s
  let program (p : String) : Setting := .nest .commandLine ["program"] (text p)
  let nonempty (l : List String) : Option (List String) := if l.isEmpty then none else some l
  match key with
  | "include" => (nonempty a.included).map (.ofTexts .commandLine)
  | "exclude" => (nonempty a.excluded).map (.ofTexts .commandLine)
  | "basedir" => a.basedir.map text
  | "compiler" => a.compiler.map program
  | "preprocessor" => a.preprocessor.map program
  | "synthesis" => a.helperPath.map fun p => .nest .commandLine ["helper_path"] (text p)
  | "out_dir" => a.outDir.map text
  | "emit_source_map" => (if a.emitSourceMap then some true else none).map (flagOf .commandLine)
  | "jobs" => a.jobs.map fun n => .scalar .commandLine (.natural n)
  | "log_level" => a.logLevel.map fun l => text l.name
  | _ => none

theorem find?_given {α : Type} (key name : String) (f : α → Setting) (v : Option α) :
    (Arguments.given name f v).reverse.find? (·.1 == key) =
      if name = key then v.map fun a => (name, f a) else none := by
  cases v with
  | none => simp [Arguments.given]
  | some a => by_cases h : name = key <;> simp [Arguments.given, h]

variable {a : Arguments} {key : String} {path : List String}

/-- The layer of the command line has what the options set. -/
theorem get?_layer (a : Arguments) (key : String) : a.layer.get? [key] = option? a key := by
  unfold option?
  dsimp only
  split
  case h_11 =>
    rw [Arguments.layer, tableOf, Setting.get?_table, Keyed.get?_ofList]
    simp [find?_given, List.find?_append]
    grind
  all_goals
    rw [Arguments.layer, tableOf, Setting.get?_table, Keyed.get?_ofList]
    simp [find?_given, List.find?_append, Function.comp_def]

variable {α : Type} {f : α → Setting} {given : Option α}

theorem get?_layer_of_some {x : α} {s : Setting} (hkey : option? a key = given.map f)
    (hgiven : given = some x) (hs : (f x).get? path = some s) :
    a.layer.get? (key :: path) = some s := by
  rw [Setting.get?_cons, get?_layer, hkey, hgiven]
  exact hs

theorem passes_layer (hkey : option? a key = given.map f)
    (h : ∀ x, given = some x → (f x).Passes path) : a.layer.Passes (key :: path) := by
  intro s hs
  have hset : a.layer.get? [key] = some s := (Setting.get?_table ..).trans hs
  rw [get?_layer, hkey] at hset
  obtain ⟨x, hx, rfl⟩ := Option.map_eq_some_iff.1 hset
  exact h x hx

theorem passes_layer_of_none (hkey : option? a key = given.map f) (hgiven : given = none) :
    a.layer.Passes (key :: path) :=
  passes_layer hkey fun x hx => by cases hgiven.symm.trans hx

theorem passes_layer_of_unset (hkey : option? a key = none) : a.layer.Passes (key :: path) := by
  have hnone : option? a key = (none : Option Setting).map id := hkey
  exact passes_layer_of_none hnone rfl

/-- A value that is given on the command line is set in its layer. -/
theorem IsLeaf.flag_some (h : IsLeaf leaf) {v : β} (hflag : leaf.flag a = some v) :
    ∃ s, a.layer.get? leaf.path = some s ∧ leaf.reading.run s = .ok v := by
  cases h with
  | included | excluded =>
    exact ⟨.ofTexts .commandLine v, get?_layer_of_some rfl hflag rfl, run_ofTexts _ _⟩
  | basedir | outDir | preprocessorProgram =>
    obtain ⟨text, htext, rfl⟩ := Option.map_eq_some_iff.1 hflag
    exact ⟨.ofText .commandLine text, get?_layer_of_some rfl htext rfl, rfl⟩
  | compilerProgram | helperPath =>
    exact ⟨.ofText .commandLine v, get?_layer_of_some rfl hflag rfl, rfl⟩
  | emitSourceMap =>
    exact ⟨flagOf .commandLine v, get?_layer_of_some rfl hflag rfl, rfl⟩
  | jobs =>
    obtain ⟨n, hn, rfl⟩ := Option.map_eq_some_iff.1 hflag
    exact ⟨.scalar .commandLine (.natural n), get?_layer_of_some rfl hn rfl, rfl⟩
  | logLevel =>
    refine ⟨.ofText .commandLine v.name, get?_layer_of_some rfl hflag rfl, ?_⟩
    cases v <;> rfl
  | _ => cases hflag

/-- A value that is not given on the command line is not set in its layer. -/
theorem IsLeaf.flag_none (h : IsLeaf leaf) (hflag : leaf.flag a = none) :
    a.layer.Passes leaf.path := by
  cases h with
  | included | excluded | compilerProgram | helperPath | emitSourceMap | logLevel =>
    exact passes_layer_of_none rfl hflag
  | basedir | outDir | preprocessorProgram | jobs =>
    exact passes_layer_of_none rfl (Option.map_eq_none_iff.1 hflag)
  | compilerArgs | preprocessorArgs | vertexSuffix | fragmentSuffix | defaultExport =>
    exact passes_layer rfl fun x _ => nofun
  | _ => exact passes_layer_of_unset rfl

end Config

end ShaderModules
