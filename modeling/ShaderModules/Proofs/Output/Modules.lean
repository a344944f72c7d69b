import ShaderModules.Output.Writing
import ShaderModules.Proofs.Host.Acts

/-!
# Modules on a tree

Where modules go. Modules that go to the same path come from the same path or, with an output
directory, from the same place below an input (`modulePath_components`). Source maps go where no
module goes (`modulePath_ne_mapPath`), unless the extension is at the end of what is behind the
names of source maps (`SeparatesMaps`).
-/

namespace ShaderModules

open ShaderModules.Path FileTree

/-! ## Paths of modules -/

/-- An extension with which no module goes where a source map may go. -/
def SeparatesMaps (extension : String) : Prop :=
  ¬extension.toList <:+ (mapPath extension).toList

instance (extension : String) : Decidable (SeparatesMaps extension) :=
  inferInstanceAs (Decidable (¬_))

section Paths

variable {p q r s : String} {name name' : List Char}

theorem mapPath_components (hp : EndsInName p name) (hq : EndsInName q name') :
    components (mapPath p) = components (mapPath q) ↔ components p = components q :=
  components_append_inj hp hq ".map"

/-- The path a module has before the extension ends in a name. -/
theorem endsInName_of_below (hp : EndsInName p name) (hr : Below r name') (outDir : Option String) :
    ∃ base last, modulePath p r outDir = (base ++ ·) ∧ EndsInName base last := by
  cases outDir with
  | none => exact ⟨p, name, rfl, hp⟩
  | some dir => exact ⟨join dir r, name', rfl, hr.endsInName_join dir⟩

variable {place place' : List Char} (hp : EndsInName p name) (hq : EndsInName q name')
  (hr : Below r place) (hs : Below s place') (outDir : Option String) (extension : String)
include hp hq hr hs

/-- **Modules have the same path** if their sources have, or, with an output directory, if their
sources are at the same place. -/
theorem modulePath_components :
    components (modulePath p r outDir extension) = components (modulePath q s outDir extension) ↔
      if outDir.isSome then components r = components s else components p = components q := by
  cases outDir with
  | none => exact components_append_inj hp hq extension
  | some dir =>
    exact (components_append_inj (hr.endsInName_join dir) (hs.endsInName_join dir) extension).trans
      (components_join_inj hr hs dir)

/-- Modules start in the same way if their sources do. -/
theorem lead_modulePath (hlead : lead p = lead q) :
    lead (modulePath p r outDir extension) = lead (modulePath q s outDir extension) := by
  cases outDir with
  | none => exact (hp.lead_append _).trans (hlead.trans (hq.lead_append _).symm)
  | some dir =>
    have hjoin : lead (join dir r) = lead (join dir s) :=
      (hr.lead_join dir).trans (hs.lead_join dir).symm
    exact ((hr.endsInName_join dir).lead_append _).trans
      (hjoin.trans ((hs.endsInName_join dir).lead_append _).symm)

variable {last : List Char} (hlast : EndsInName (modulePath p r outDir extension) last)
include hlast

/-- With the same extension, the paths of two modules both end in a name or neither does. -/
theorem endsInName_modulePath :
    ∃ last', EndsInName (modulePath q s outDir extension) last' := by
  obtain ⟨base, _, hbase, hbaseName⟩ := endsInName_of_below hp hr outDir
  obtain ⟨base', _, hbase', hbaseName'⟩ := endsInName_of_below hq hs outDir
  rw [hbase] at hlast
  rw [hbase']
  exact hbaseName.of_append hbaseName' hlast

/-- **A module and a source map have different paths.** -/
theorem modulePath_ne_mapPath (h : SeparatesMaps extension) :
    components (modulePath p r outDir extension) ≠
      components (mapPath (modulePath q s outDir extension)) := by
  obtain ⟨last', hlast'⟩ := endsInName_modulePath hp hq hr hs outDir extension hlast
  obtain ⟨base, _, hbase, hbaseName⟩ := endsInName_of_below hp hr outDir
  obtain ⟨base', _, hbase', hbaseName'⟩ := endsInName_of_below hq hs outDir
  rw [hbase] at hlast
  rw [hbase'] at hlast'
  rw [hbase, hbase']
  intro heq
  refine h ?_
  rw [mapPath, String.toList_append]
  exact suffix_of_components_eq hbaseName hbaseName' hlast hlast' (by decide) (by decide) heq

end Paths

/-- With the extension of source maps, the module of one file can be the source map of another. -/
example : modulePath "/x.glsl.map" "x.glsl.map" none ".map" =
    mapPath (modulePath "/x.glsl" "x.glsl" none ".map") := by decide

/-! ## Directories of modules -/

/-- The paths that are written at for a module. -/
def placesOf (path : String) (withMap : Bool) : List String :=
  path :: if withMap then [mapPath path] else []

/-- However it ends, only directories are made for a module before it is written. -/
theorem FileTree.prepare_acts (t : FileTree) (path : String) (places : String → Prop) :
    Acts places t (t.prepare path).1 := by
  unfold prepare
  split
  · exact .done _
  · split
    · exact .done _
    · exact createDirectories_acts _

variable {t : FileTree} {path : String}

/-- Where the directory of a module is there, nothing is created. -/
theorem FileTree.prepare_of_isDirectory {parent : String} (hparent : parent? path = some parent)
    (hne : parent ≠ "") (htrim : trimSlashes parent = parent) {names : List String}
    (hfound : ∀ followLast, t.locate followLast parent = .ok (.found names .directory)) :
    t.prepare path = (t, .ok ()) := by
  have hcreate : t.createDirectory parent = .error .exists := by
    unfold createDirectory
    simp only [htrim, if_neg hne, hfound]
  have hdir : t.isDirectory parent = true := by
    unfold isDirectory directory?
    rw [hfound]
    rfl
  have hensure : t.ensureDirectory parent = .ok t := by
    unfold ensureDirectory
    simp [hcreate, hdir]
  unfold prepare
  rw [hparent]
  dsimp only
  rw [if_neg hne, createDirectories, lineage, createAlong, if_neg hne, hensure]
  rfl

end ShaderModules
