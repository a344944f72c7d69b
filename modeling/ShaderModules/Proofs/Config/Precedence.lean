import ShaderModules.Proofs.Config.Leaves
import ShaderModules.Proofs.Config.Sources
import ShaderModules.Proofs.Host.Acts

/-!
# Which layer decides

Each leaf of a configuration that is loaded is taken from the highest layer that sets it, whatever
the layers say of other leaves, if the layers above have only tables on the way to it; and it has
its default if no layer sets it (`Config.load_leaf`).
-/

namespace ShaderModules

namespace Config

open Setting FileTree

variable {a : Arguments}

/-! ## The layers of a load -/

/-- The settings of the configuration file; there are none without a file. -/
def fileSettings (tree : FileTree) (a : Arguments) : Except ApplicationError Setting :=
  match findFile? tree (a.config.getD configFileName) with
  | none => .ok (.table .defaults [])
  | some path => (fileLayer tree path).mapError .settings

variable {tree : FileTree} {environment : List (String × String)} {c : Config}
  {file settings : Setting}

/-- The layers above the defaults, the highest first. -/
def layersOf (environment : List (String × String)) (a : Arguments) (file : Setting) :
    List Setting := [a.layer, Variable.layer environment, file]

/-- The settings of a load, if a file that is named is there. -/
theorem settings_eq (hnamed : ∀ path, a.config = some path → tree.isFile path = true) :
    Config.settings tree environment a = (fileSettings tree a).map fun file =>
      Setting.stack (({} : Config).toSetting .defaults) (layersOf environment a file) := by
  unfold Config.settings fileSettings
  generalize findFile? tree (a.config.getD configFileName) = found
  cases hconfig : a.config with
  | none => cases found <;> rfl
  | some path =>
    have hfile : tree.isFile path = true := hnamed path hconfig
    simp only [hfile]
    cases found <;> rfl

theorem exists_of_settings (h : Config.settings tree environment a = .ok settings) :
    ∃ file, fileSettings tree a = .ok file ∧
      settings = Setting.stack (({} : Config).toSetting .defaults)
        (layersOf environment a file) := by
  have hnamed : ∀ path, a.config = some path → tree.isFile path = true := by
    intro path hconfig
    unfold Config.settings at h
    rw [hconfig] at h
    cases hfile : tree.isFile path with
    | true => rfl
    | false =>
      simp only [hfile] at h
      cases h
  rw [settings_eq hnamed] at h
  obtain ⟨file, hfile, rfl⟩ := Fallible.map_eq_ok_iff.1 h
  exact ⟨file, hfile, rfl⟩

theorem exists_of_load (h : load tree environment a = .ok c) :
    ∃ file, fileSettings tree a = .ok file ∧
      schema.run (Setting.stack (({} : Config).toSetting .defaults)
        (layersOf environment a file)) = .ok c := by
  obtain ⟨s, hsettings, hread⟩ := Fallible.bind_eq_ok_iff.1 h
  obtain ⟨file, hfile, rfl⟩ := exists_of_settings hsettings
  exact ⟨file, hfile, Fallible.mapError_eq_ok_iff.1 hread⟩

theorem ordered_of_fileLayer {path : String} (h : fileLayer tree path = .ok file) :
    file.Ordered := by
  unfold fileLayer at h
  dsimp only at h
  split at h
  · cases h
  · split at h
    · cases h
    · cases h
      exact Toml.Value.ordered_toSetting ..

theorem ordered_of_fileSettings (h : fileSettings tree a = .ok file) : file.Ordered := by
  unfold fileSettings at h
  split at h
  · cases h
    exact .table List.Pairwise.nil nofun
  · rename_i path _
    exact ordered_of_fileLayer (Fallible.mapError_eq_ok_iff.1 h)

theorem ordered_of_mem_layersOf (h : fileSettings tree a = .ok file) {layer : Setting}
    (hlayer : layer ∈ layersOf environment a file) : layer.Ordered := by
  simp only [layersOf, List.mem_cons, List.not_mem_nil, or_false] at hlayer
  rcases hlayer with rfl | rfl | rfl
  · exact a.ordered_layer
  · exact Variable.ordered_layer environment
  · exact ordered_of_fileSettings h

/-! ## Precedence -/

/-- **Every leaf has its own precedence.** If a configuration is loaded, then each of its leaves is
read from the highest layer that sets it, of the command line, the environment, the configuration
file and the defaults, provided that the layers above let it pass. If none of the first three sets a
leaf, it has its default. A value that is given on the command line is the one that is configured.
An option that is not given lets the leaf pass: what is found there is what is found without the
command line. -/
theorem load_leaf (h : load tree environment a = .ok c) :
    ∃ file, fileSettings tree a = .ok file ∧ ∀ {β : Type} {leaf : Leaf β}, IsLeaf leaf →
      (∀ s, Setting.Wins leaf.path (({} : Config).toSetting .defaults)
        (layersOf environment a file) s → leaf.reading.run s = .ok (leaf.value c)) ∧
      ((∀ layer ∈ layersOf environment a file, layer.Passes leaf.path) →
        leaf.value c = leaf.value {}) ∧
      (∀ v, leaf.flag a = some v → leaf.value c = v) ∧
      (leaf.flag a = none → a.layer.Passes leaf.path ∧
        (Setting.stack (({} : Config).toSetting .defaults)
            (layersOf environment a file)).get? leaf.path =
          (Setting.stack (({} : Config).toSetting .defaults)
            [Variable.layer environment, file]).get? leaf.path) := by
  obtain ⟨file, hfile, hrun⟩ := exists_of_load h
  refine ⟨file, hfile, fun {β leaf} hleaf => ?_⟩
  have hlayers : ∀ layer ∈ layersOf environment a file, layer.Ordered := fun layer =>
    ordered_of_mem_layersOf hfile
  have hordered : (Setting.stack (({} : Config).toSetting .defaults)
      (layersOf environment a file)).Ordered := (ordered_toSetting ..).stack hlayers
  have hwins : ∀ s, Setting.Wins leaf.path (({} : Config).toSetting .defaults)
      (layersOf environment a file) s → leaf.reading.run s = .ok (leaf.value c) := by
    intro s hs
    obtain ⟨s', hget, hs'⟩ := hs.get?_stack hlayers
    have hread := hleaf.readsAt _ _ _ hordered hrun hget
    rcases hs' with rfl | htable
    · exact hread
    · exact absurd htable (hleaf.not_isTable hread)
  refine ⟨hwins, fun hpass => ?_, fun v hv => ?_, fun hnone => ?_⟩
  · rcases hleaf.default with hset | ⟨hlacks, hdefault⟩
    · obtain ⟨s, hs⟩ := Option.isSome_iff_exists.1 hset
      have hread := hwins s (.of_passes hpass hs)
      have hread' := hleaf.readsAt _ _ _ (ordered_toSetting ..) run_defaults hs
      exact Except.ok.inj (hread.symm.trans hread')
    · exact hdefault _ _ hordered hrun
        (hlacks.stack fun layer hlayer => ⟨hlayers layer hlayer, hpass layer hlayer⟩)
  · obtain ⟨s, hs, hread⟩ := hleaf.flag_some hv
    exact Except.ok.inj ((hwins s (.highest _ hs)).symm.trans hread)
  · have hpass := hleaf.flag_none hnone
    exact ⟨hpass, get?_merge_of_passes a.ordered_layer hpass _⟩

/-! ## Settings in three layers -/

/-- A document that sets two leaves. -/
def document : String := "jobs=4\nemit_source_map=true\n"

/-- A tree with the document as the configuration file. -/
def home : FileTree where
  nodes := [(["shader-forge.toml"], .file document.toUTF8 false)]

/-- Variables that set a leaf of the file and another one. -/
def assigned : List (String × String) :=
  [("SHADER_FORGE_JOBS", "2"), ("SHADER_FORGE_COMPILER__ARGS", "[-v]")]

/-- Options that set one leaf of the compiler. -/
def options : Arguments := { compiler := some "glslx-nightly" }

theorem parse_home : Toml.parse? document =
    some [("jobs", .integer 4), ("emit_source_map", .flag true)] := rfl

/-- The layer of the document. -/
def documentLayer : Setting :=
  .table (.file (shownPath home "/shader-forge.toml"))
    [("emit_source_map", flagOf (.file (shownPath home "/shader-forge.toml")) true),
     ("jobs", .scalar (.file (shownPath home "/shader-forge.toml")) (.integer 4))]

theorem readText_home : home.readText "/shader-forge.toml" = .ok document := by
  have hfound : home.locate true "/shader-forge.toml" =
      .ok (.found ["shader-forge.toml"] (.file document.toUTF8 false)) :=
    locate_of_walk ⟨by decide, by decide, by decide⟩ rfl
      (.file ⟨by decide, by decide, by decide⟩ rfl)
  exact readText_of_locate hfound

theorem findFile_home : findFile? home configFileName = some "/shader-forge.toml" := by
  have hpaths : (lineageOf home.workDir).map
      (fun dir => Path.join (FileTree.pathOf dir) configFileName) = ["/shader-forge.toml"] := by
    decide
  have hfile : home.isFile "/shader-forge.toml" = true := isFile_of_readText readText_home
  change List.find? home.isFile ((lineageOf home.workDir).map
    fun dir => Path.join (FileTree.pathOf dir) configFileName) = _
  rw [hpaths, List.find?_cons, hfile]

theorem fileLayer_home : fileLayer home "/shader-forge.toml" = .ok documentLayer := by
  unfold fileLayer
  dsimp only
  rw [readText_home]
  dsimp only
  rw [parse_home]
  rfl

theorem fileSettings_home : fileSettings home options = .ok documentLayer := by
  have hconfig : options.config.getD configFileName = configFileName := rfl
  unfold fileSettings
  rw [hconfig, findFile_home]
  dsimp only
  rw [fileLayer_home]
  rfl

theorem layer_assigned : Variable.layer assigned = .table .environment
    [("compiler", .table .environment [("args", .list .environment [.ofText .environment "-v"])]),
     ("jobs", .scalar .environment (.natural 2))] := by
  have hjobs : Variable.keys? "SHADER_FORGE_JOBS" = some ["jobs"] := by decide +kernel
  have hargs : Variable.keys? "SHADER_FORGE_COMPILER__ARGS" = some ["compiler", "args"] := by
    decide +kernel
  have htwo : Variable.readValue "2" = .scalar .environment (.natural 2) := rfl
  have hlist : Variable.readValue "[-v]" = .list .environment [.ofText .environment "-v"] := rfl
  unfold Variable.layer assigned
  simp only [List.foldl_cons, List.foldl_nil, hjobs, hargs, htwo, hlist]
  rfl

theorem exists_load_home : ∃ c, load home assigned options = .ok c := by
  have hsettings : Config.settings home assigned options =
      .ok (Setting.stack (({} : Config).toSetting .defaults)
        (layersOf assigned options documentLayer)) := by
    rw [settings_eq (fun path h => by cases h), fileSettings_home]
    rfl
  have hrun : ∃ c, schema.run (Setting.stack (({} : Config).toSetting .defaults)
      (layersOf assigned options documentLayer)) = .ok c := by
    rw [layersOf, layer_assigned]
    exact ⟨_, rfl⟩
  obtain ⟨c, hc⟩ := hrun
  refine ⟨c, ?_⟩
  unfold load
  rw [hsettings]
  change (schema.run _).mapError _ = _
  rw [hc]
  rfl

/-- The environment decides on the number of jobs, over the file, and on the arguments of the
compiler, although the command line has its program; the file decides on source maps, and the
extension is the default one. -/
theorem load_leaf_home : ∃ c, load home assigned options = .ok c ∧ c.jobs = some 2 ∧
    c.compiler.program = "glslx-nightly" ∧ c.compiler.args = ["-v"] ∧ c.emitSourceMap = true ∧
    c.extension = ".js" := by
  obtain ⟨c, hload⟩ := exists_load_home
  obtain ⟨file, hfile, hleaf⟩ := load_leaf hload
  cases hfile.symm.trans fileSettings_home
  -- what is not given as an option passes the highest layer
  have hunset : ∀ {β : Type} {leaf : Leaf β} {layers : List Setting} {s : Setting}, IsLeaf leaf →
      leaf.flag options = none → Wins leaf.path (({} : Config).toSetting .defaults) layers s →
      Wins leaf.path (({} : Config).toSetting .defaults) (options.layer :: layers) s :=
    fun h hnone hwins => .lower ((hleaf h).2.2.2 hnone).1 hwins
  have hjobs := (hleaf .jobs).1 (.scalar .environment (.natural 2))
    (hunset .jobs rfl (.highest _ (by rw [layer_assigned]; rfl)))
  have hargs := (hleaf .compilerArgs).1 (.list .environment [.ofText .environment "-v"])
    (hunset .compilerArgs rfl (.highest _ (by rw [layer_assigned]; rfl)))
  have hemit := (hleaf .emitSourceMap).1 (flagOf (.file _) true) (hunset .emitSourceMap rfl
    (.lower (by rw [layer_assigned]; nofun) (.highest _ rfl)))
  have hextension := (hleaf .extension).2.1 (by
    intro layer hlayer
    simp only [layersOf, List.mem_cons, List.not_mem_nil, or_false] at hlayer
    rcases hlayer with rfl | rfl | rfl
    · exact ((hleaf .extension).2.2.2 rfl).1
    · rw [layer_assigned]
      nofun
    · nofun)
  exact ⟨c, hload, (Except.ok.inj hjobs).symm, (hleaf .compilerProgram).2.2.1 _ rfl,
    (Except.ok.inj hargs).symm, (Except.ok.inj hemit).symm, hextension⟩

end Config

end ShaderModules
