import ShaderModules.Proofs.Running

/-!
# What a failure leaves behind

A file that fails before its module is written leaves every file of the tree as it was: at most
directories are made for it (`processFile_failed`). The source map is written after the module, and
nothing takes the module back if that fails. This is the only way in which the module of a file
stays although the file is reported to have failed, and it happens (`module_left_behind`).

* `FileTree.KeepsFiles`: the files of a tree stay, and no file is new.
-/

namespace ShaderModules

namespace FileTree

variable {t t' t'' : FileTree} {except : List (List String)} {names : List String}

/-- No file is created or changed, except under some names. -/
def KeepsFiles (t t' : FileTree) (except : List (List String)) : Prop :=
  ∀ names ∉ except, ∀ contents executable,
    t'.node? names = some (.file contents executable) ↔
      t.node? names = some (.file contents executable)

theorem KeepsFiles.refl (t : FileTree) (except : List (List String)) : t.KeepsFiles t except :=
  fun _ _ _ _ => .rfl

theorem KeepsFiles.trans (h : t.KeepsFiles t' except) (h' : t'.KeepsFiles t'' except) :
    t.KeepsFiles t'' except :=
  fun names hnames contents executable =>
    (h' names hnames contents executable).trans (h names hnames contents executable)

theorem KeepsFiles.mono {except' : List (List String)} (h : t.KeepsFiles t' except)
    (hsub : except ⊆ except') : t.KeepsFiles t' except' :=
  fun names hnames => h names fun hm => hnames (hsub hm)

theorem keepsFiles_setNode (t : FileTree) (hne : names ≠ []) (n : Node) :
    t.KeepsFiles (t.setNode names n) [names] := by
  intro other hother contents executable
  rw [node?_setNode t hne, if_neg (by simpa using hother)]

/-- Where nothing is written, files stay. -/
theorem Act.keepsFiles (h : Act (fun _ => False) t t') : t.KeepsFiles t' [] := by
  cases h with
  | write hp => exact hp.elim
  | directory h =>
    obtain ⟨names, hne, hfree, rfl⟩ := exists_of_createDirectory h
    intro other _ contents executable
    rw [node?_setNode t hne]
    split
    · rename_i hsame
      rw [hsame, hfree]
      exact ⟨nofun, nofun⟩
    · exact .rfl

theorem Acts.keepsFiles (h : Acts (fun _ => False) t t') : t.KeepsFiles t' [] := by
  induction h with
  | done => exact .refl _ _
  | step hact _ ih => exact hact.keepsFiles.trans ih

/-- While directories are made, no source map is written. -/
theorem prepare_ne_sourceMap (t : FileTree) (path map : String) (cause : OsError) :
    (t.prepare path).2 ≠ .error (.sourceMap map cause) := by
  unfold prepare
  split
  · nofun
  · split
    · nofun
    · dsimp only
      cases (t.createDirectories _).2 <;> nofun

/-- Writing changes the file that the path leads to in the end. -/
theorem keepsFiles_of_write {p : String} {contents : ByteArray} (h : t.write p contents = .ok t') :
    ∃ names, t'.LeadsTo p names ∧ t'.read p = .ok contents ∧ t.KeepsFiles t' [names] := by
  obtain ⟨names, executable, hne, rfl, -, hleads⟩ := exists_of_write h
  have hnode : (t.setNode names (.file contents executable)).node? names =
      some (.file contents executable) := by
    rw [node?_setNode t hne, if_pos rfl]
  exact ⟨names, hleads, read_of_leadsTo hleads hnode, keepsFiles_setNode t hne _⟩

end FileTree

open FileTree

/-- **A module that is not written** leaves the files as they are, unless it is its source map that
cannot be written: then the module is there. -/
theorem Generated.write_failed {g : Generated} {t t' : FileTree} {path : String} {withMap : Bool}
    {e : WriteError} (h : g.write t path withMap = (t', .error e)) :
    ((∀ map cause, e ≠ .sourceMap map cause) → t.KeepsFiles t' []) ∧
    ∀ map cause, e = .sourceMap map cause → withMap = true ∧ map = mapPath path ∧
      ∃ names, t'.LeadsTo path names ∧ t'.read path = .ok g.code.toUTF8 ∧
        t.KeepsFiles t' [names] := by
  have hmade : t.KeepsFiles (t.prepare path).1 [] := (prepare_acts t path _).keepsFiles
  unfold Generated.write at h
  split at h
  · rename_i prepared e hprepare
    rw [hprepare] at hmade
    cases h
    refine ⟨fun _ => hmade, ?_⟩
    rintro map cause rfl
    exact absurd (congrArg Prod.snd hprepare) (prepare_ne_sourceMap t path map cause)
  · rename_i prepared hprepare
    have hkept : t.KeepsFiles prepared [] := by rwa [hprepare] at hmade
    split at h
    · cases h
      exact ⟨fun _ => hkept, nofun⟩
    · rename_i written hwrite
      obtain ⟨names, hleads, hread, hchanged⟩ := keepsFiles_of_write hwrite
      split at h
      · rename_i hmap
        dsimp only at h
        split at h
        · cases h
          refine ⟨fun hne => absurd rfl (hne _ _), ?_⟩
          rintro map cause heq
          cases heq
          exact ⟨hmap, rfl, names, hleads, hread,
            (hkept.mono (List.nil_subset _)).trans hchanged⟩
        · cases h
      · cases h

namespace Run

variable {launch : Launcher} {c : Config} {tr : Transform} {t t' : FileTree} {f : Candidate}
  {e : FileError}

/-- That there is no module of a candidate is never due to writing. -/
theorem moduleOf_ne_write (cause : WriteError) :
    (moduleOf launch t c tr f).value ≠ .error (.write cause) := by
  intro h
  rcases moduleOf_eq_error h with ⟨_, heq⟩ | ⟨_, heq⟩ | ⟨heq, -⟩ <;> cases heq

/-- **What a file that fails leaves behind.** If a file fails, no file is created or changed, unless
its source map cannot be written. In that case the module of the file is written and stays, with the
code made of the file, and it is the only file that is created or changed. -/
theorem processFile_failed (h : (processFile launch c tr t f).value = (t', .failed e)) :
    ((∀ map cause, e ≠ .write (.sourceMap map cause)) → t.KeepsFiles t' []) ∧
    ∀ map cause, e = .write (.sourceMap map cause) →
      c.emitSourceMap = true ∧ map = mapPath (targetOf c f) ∧
      ∃ g names, (moduleOf launch t c tr f).value = .ok g ∧ t'.LeadsTo (targetOf c f) names ∧
        t'.read (targetOf c f) = .ok g.code.toUTF8 ∧ t.KeepsFiles t' [names] := by
  rcases processFile_eq_failed h with ⟨rfl, hmade⟩ | ⟨g, cause, hmade, hwrite, rfl⟩
  · refine ⟨fun _ => .refl _ _, ?_⟩
    rintro map cause rfl
    exact absurd hmade (moduleOf_ne_write _)
  · obtain ⟨hother, hmap⟩ := Generated.write_failed hwrite
    refine ⟨fun hne => hother fun map cause heq => hne map cause (heq ▸ rfl), ?_⟩
    rintro map cause heq
    cases heq
    obtain ⟨hemit, hpath, names, hleads, hread, hkept⟩ := hmap map _ rfl
    exact ⟨hemit, hpath, g, names, hmade, hleads, hread, hkept⟩

/-! ## A source map that cannot be written -/

/-- Modules go next to their files, and so do their source maps. -/
def mapped : Config := { mirrored with outDir := none, emitSourceMap := true }

/-- A file, and a directory where the source map of its module would go. -/
def blocked : FileTree where
  nodes := [(["s"], .directory), (["s", "x.glsl"], .file (printed [one]).toUTF8 false),
    (["s", "x.glsl.js.map"], .directory)]

/-- The tree when the module of the file is written. -/
def unmapped : FileTree :=
  blocked.setNode ["s", "x.glsl.js"] (.file (moduleFor one).code.toUTF8 false)

/-- The file below `blocked`. -/
def blockedFile : Candidate := ⟨"/s/x.glsl", "x.glsl"⟩

/-- The reason for which the source map is not written. -/
def mapFault : FileError := .write (.sourceMap "/s/x.glsl.js.map" .isDirectory)

theorem moduleOf_blocked :
    (moduleOf copying blocked mapped mirroring blockedFile).value = .ok (moduleFor one) := by
  have hfound : blocked.locate true "/s/x.glsl" =
      .ok (.found ["s", "x.glsl"] (.file (printed [one]).toUTF8 false)) :=
    locate_of_walk ⟨by decide, by decide, by decide⟩ rfl
      (.enter (usable_of (by decide)) rfl (.file (usable_of (by decide)) rfl))
  exact moduleOf_copying (.inl rfl) (readText_of_locate hfound)

theorem processFile_blocked :
    (processFile copying mapped mirroring blocked blockedFile).value =
      (unmapped, .failed mapFault) := by
  have hdirectory : ∀ followLast, blocked.locate followLast "/s" = .ok (.found ["s"] .directory) :=
    fun _ => locate_of_walk ⟨by decide, by decide, by decide⟩ rfl
      (.enter (usable_of (by decide)) rfl (.arrived _ _))
  have hprepare : blocked.prepare "/s/x.glsl.js" = (blocked, .ok ()) :=
    prepare_of_isDirectory (by decide) (by decide) (by decide) hdirectory
  have hfree : blocked.locate true "/s/x.glsl.js" = .ok (.vacant ["s"] "x.glsl.js") :=
    locate_of_walk ⟨by decide, by decide, by decide⟩ rfl
      (.enter (usable_of (by decide)) rfl (.vacant (usable_of (by decide)) rfl))
  have hwrite : blocked.write "/s/x.glsl.js" (moduleFor one).code.toUTF8 = .ok unmapped := by
    rw [FileTree.write, hfree]
    rfl
  have htaken : unmapped.locate true "/s/x.glsl.js.map" =
      .ok (.found ["s", "x.glsl.js.map"] .directory) :=
    locate_of_walk ⟨by decide, by decide, by decide⟩ rfl
      (.enter (usable_of (by decide)) rfl (.enter (usable_of (by decide)) rfl (.arrived _ _)))
  have hmap : unmapped.write "/s/x.glsl.js.map" (moduleFor one).map.render.toUTF8 =
      .error .isDirectory := by
    rw [FileTree.write, htaken]
  have htarget : targetOf mapped blockedFile = "/s/x.glsl.js" := by decide
  have hmapPath : mapPath "/s/x.glsl.js" = "/s/x.glsl.js.map" := by decide
  have hemit : mapped.emitSourceMap = true := rfl
  rw [processFile_of_ok moduleOf_blocked]
  dsimp only [writeModule]
  rw [htarget, Generated.write, hprepare]
  dsimp only
  rw [hwrite]
  dsimp only
  rw [hemit, if_pos rfl, hmapPath, hmap]
  rfl

/-- The module of the file below `blocked` is written, and it is all that is. -/
theorem processFile_failed_blocked :
    (processFile copying mapped mirroring blocked blockedFile).value =
        (unmapped, .failed mapFault) ∧
      ∃ g names, (moduleOf copying blocked mapped mirroring blockedFile).value = .ok g ∧
        unmapped.LeadsTo "/s/x.glsl.js" names ∧
        unmapped.read "/s/x.glsl.js" = .ok g.code.toUTF8 ∧
        blocked.KeepsFiles unmapped [names] := by
  obtain ⟨-, -, hleft⟩ := (processFile_failed processFile_blocked).2 _ _ rfl
  exact ⟨processFile_blocked, hleft⟩

/-- **A file that fails can leave its module behind.** There was none before, and it stays although
the file is reported to have failed. -/
theorem module_left_behind :
    ∃ t, (processFile copying mapped mirroring blocked blockedFile).value =
        (t, .failed mapFault) ∧
      blocked.node? ["s", "x.glsl.js"] = none ∧
      t.node? ["s", "x.glsl.js"] = some (.file (moduleFor one).code.toUTF8 false) ∧
      ¬blocked.KeepsFiles t [] := by
  have hnew : unmapped.node? ["s", "x.glsl.js"] =
      some (.file (moduleFor one).code.toUTF8 false) := rfl
  refine ⟨unmapped, processFile_blocked, rfl, hnew, fun hkept => ?_⟩
  have hold := (hkept ["s", "x.glsl.js"] List.not_mem_nil _ _).1 hnew
  cases hold

end Run

end ShaderModules
