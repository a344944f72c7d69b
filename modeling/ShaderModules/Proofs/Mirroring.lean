import ShaderModules.Output.Place
import ShaderModules.Proofs.Collecting
import ShaderModules.Proofs.Host.Acts
import ShaderModules.Proofs.Path.Names

/-!
# The output directory mirrors the inputs

Every candidate has been found for an input: it is an input file, placed by its bare name, or it lies
below an input directory and is placed by the names that lead down to it (`Candidate.FoundFor`).
However inputs are spelled, its place is a path of names, so that with an output directory its module
and its source map are below that directory under the same names (`collect_mirrors`).

* `FileTree.Named`: a tree in which all entries have names that a file can have.
* `Collection.foundFor_of_mem_listingOf`: what an input stands for.
-/

namespace ShaderModules

open ShaderModules.Path FileTree

/-! ## Where candidates are found -/

namespace FileTree

/-- All entries have names that a file can have. -/
def Named (t : FileTree) : Prop := ∀ n, t.HasName n → IsName n

theorem named_of_nodes {t : FileTree} (h : ∀ e ∈ t.nodes, ∀ n ∈ e.1, IsName n) : t.Named := by
  rintro n ⟨e, he, hn⟩
  exact h e he n hn

end FileTree

/-- Going down along names is going down along the path of the names. -/
theorem Path.foldl_under_eq {names : List String} (hne : names ≠ []) (hnames : ∀ n ∈ names, IsName n)
    (base : String) : names.foldl under base = under base (ofNames names) := by
  induction names generalizing base with
  | nil => exact absurd rfl hne
  | cons n rest ih =>
    obtain ⟨hn, hrest⟩ := List.forall_mem_cons.1 hnames
    rw [List.foldl_cons]
    cases rest with
    | nil => rfl
    | cons m rest =>
      have hslash : under n (ofNames (m :: rest)) = ofNames (n :: m :: rest) := by
        rw [ofNames_cons (List.cons_ne_nil m rest), under, if_neg]
        exact fun hlast => hn.noSlash (List.mem_of_getLast? hlast)
      rw [ih (List.cons_ne_nil m rest) hrest, under_under (isName_iff.1 hn).1.1, hslash]

/-- A candidate that has been found for an input, and the names by which it is placed: the last name
of an input file, or the names that lead from an input directory down to what is listed for it. -/
inductive Candidate.FoundFor (t : FileTree) (input : String) : Candidate → List String → Prop
  | file {name : String} {before : List Component} : t.isDirectory input = false →
    t.isFile input = true → components input = before ++ [.name name.toList] →
    FoundFor t input ⟨input, name⟩ [name]
  | below {names : List String} : t.isDirectory input = true →
    join input (ofNames names) ∈ t.listing input → names ≠ [] →
    FoundFor t input ⟨join input (ofNames names), ofNames names⟩ names

namespace Collection

variable {t : FileTree} {s : Selector} {input : String} {inputs : List String}
  {collected : Collected} {l : List Candidate} {f : Candidate}

theorem endsInName_of_isFile (h : t.isFile input = true) : ∃ name, EndsInName input name := by
  obtain ⟨names, hleads⟩ := FileTree.isFile_iff.1 h
  exact hleads.endsInName

/-- **What an input stands for** is found for it and placed by names. -/
theorem foundFor_of_mem_listingOf (hnames : t.Named) (habs : isAbsolute input = true)
    (h : listingOf t input = .ok l) (hf : f ∈ l) :
    ∃ names, (∀ n ∈ names, IsName n) ∧ f.FoundFor t input names := by
  unfold listingOf at h
  split at h
  · rename_i hdir
    cases h
    obtain ⟨p, hp, rfl⟩ := List.mem_map.1 hf
    obtain ⟨names, rfl, hnil, -, hhas⟩ :=
      FileTree.exists_of_mem_listing (ne_empty_of_isAbsolute habs) hp
    have hne : names ≠ [] := fun h => by rw [hnil.1 h] at hdir; cases hdir
    have hisName : ∀ n ∈ names, IsName n := fun n hn => hnames n (hhas n hn)
    have hjoin : join input (ofNames names) = under input (ofNames names) :=
      join_eq_under (ne_empty_of_isAbsolute habs) (below_ofNames hisName hne).relative
    rw [foldl_under_eq hne hisName] at hp ⊢
    rw [below?_under hisName habs hne, Option.getD_some, ← hjoin]
    exact ⟨names, hisName, .below hdir (hjoin ▸ hp) hne⟩
  · rename_i hdir
    split at h
    · rename_i hfile
      cases h
      obtain ⟨name, hname⟩ := endsInName_of_isFile hfile
      obtain ⟨before, hcomponents, -⟩ := hname.components_append (e := "") rfl
      rw [List.mem_singleton.1 hf, hname.fileName? habs, Option.getD_some]
      refine ⟨[String.ofList name], List.forall_mem_singleton.2 hname.isName_ofList, ?_⟩
      exact .file (by simpa using hdir) hfile (by rw [hcomponents, String.toList_ofList])
    · cases h

/-! ## Where modules go -/

/-- The place of a candidate is made of the names by which it is placed. -/
theorem relative_of_foundFor {names : List String} (h : f.FoundFor t input names) :
    f.relative = ofNames names ∧ names ≠ [] := by
  cases h with
  | file => exact ⟨rfl, List.cons_ne_nil _ _⟩
  | below _ _ hne => exact ⟨rfl, hne⟩

/-- **The output directory mirrors the inputs.** A candidate has been found for an input and is placed
by names. Below any output directory its module has the same names with the extension behind the
last of them, and its source map has these with `.map` behind the last; all of them are names, so
that neither path leaves the directory. -/
theorem collect_mirrors (hnames : t.Named) (h : (collect t s inputs).value = .ok collected)
    (hf : f ∈ collected.candidates) :
    ∃ i ∈ inputs, ∃ init last, f.FoundFor t (absolute t i) (init ++ [last]) ∧
      f.relative = ofNames (init ++ [last]) ∧ (∀ n ∈ init ++ [last], IsName n) ∧
      ∀ dir extension, '/' ∉ extension.toList →
        IsName (last ++ extension) ∧ IsName (last ++ (extension ++ ".map")) ∧
        components (modulePath f.path f.relative (some dir) extension) =
          components dir ++ named (init ++ [last ++ extension]) ∧
        components (mapPath (modulePath f.path f.relative (some dir) extension)) =
          components dir ++ named (init ++ [last ++ (extension ++ ".map")]) := by
  obtain ⟨i, hi, l, hl, hfl⟩ := exists_input_of_mem h hf
  obtain ⟨names, hisName, hfound⟩ :=
    foundFor_of_mem_listingOf hnames (isAbsolute_absolute t i) hl hfl
  obtain ⟨hrelative, hne⟩ := relative_of_foundFor hfound
  obtain ⟨init, last, rfl⟩ : ∃ init last, names = init ++ [last] :=
    ⟨_, _, (List.dropLast_concat_getLast hne).symm⟩
  refine ⟨i, hi, init, last, hfound, hrelative, hisName, fun dir extension hslash => ?_⟩
  have hlast : IsName last := hisName last (by simp)
  have hmapSlash : '/' ∉ (extension ++ ".map").toList := by
    rw [String.toList_append, List.mem_append, not_or]
    exact ⟨hslash, by decide⟩
  refine ⟨hlast.append hslash, hlast.append hmapSlash, ?_, ?_⟩
  · rw [hrelative]
    exact components_join_append hisName hslash dir
  · rw [hrelative, mapPath, modulePath, String.append_assoc]
    exact components_join_append hisName hmapSlash dir

/-! ## A directory and one of its files -/

/-- Two files, one of them below the directory `src`. -/
def detour : FileTree where
  nodes := [(["main.glsl"], .file "void main() \x7b\x7d\n".toUTF8 false), (["src"], .directory),
    (["src", "fx"], .directory), (["src", "fx", "wind.glsl"], .file "float wind;\n".toUTF8 false)]

/-- All files are selected. -/
def everything : Selector := ⟨"/", none, []⟩

/-- What is found for `detour`: the file by way of the directory, and by itself. -/
def detourCandidates : List Candidate :=
  [⟨"/src/../src/fx/wind.glsl", "fx/wind.glsl"⟩, ⟨"/src/fx/wind.glsl", "wind.glsl"⟩]

theorem locate_wind : detour.locate true "/src/fx/wind.glsl" =
    .ok (.found ["src", "fx", "wind.glsl"] (.file "float wind;\n".toUTF8 false)) :=
  locate_of_walk ⟨by decide, by decide, by decide⟩ rfl
    (.enter (usable_of (by decide)) rfl (.enter (usable_of (by decide)) rfl
      (.file (usable_of (by decide)) rfl)))

theorem locate_wind_detour : detour.locate true "/src/../src/fx/wind.glsl" =
    .ok (.found ["src", "fx", "wind.glsl"] (.file "float wind;\n".toUTF8 false)) :=
  locate_of_walk ⟨by decide, by decide, by decide⟩ rfl
    (.enter (usable_of (by decide)) rfl (.up (.enter (usable_of (by decide)) rfl
      (.enter (usable_of (by decide)) rfl (.file (usable_of (by decide)) rfl)))))

theorem directory?_src : detour.directory? "/src/../src" = some ["src"] := directory?_of_locate
  (locate_of_walk ⟨by decide, by decide, by decide⟩ rfl
    (.enter (usable_of (by decide)) rfl (.up (.enter (usable_of (by decide)) rfl (.arrived _ _)))))

theorem listing_src : detour.listing "/src/../src" = ["/src/../src/fx/wind.glsl"] := by
  have hfx : detour.directory? "/src/../src/fx" = some ["src", "fx"] := directory?_of_locate
    (locate_of_walk ⟨by decide, by decide, by decide⟩ rfl
      (.enter (usable_of (by decide)) rfl (.up (.enter (usable_of (by decide)) rfl
        (.enter (usable_of (by decide)) rfl (.arrived _ _))))))
  have hfile : detour.directory? "/src/../src/fx/wind.glsl" = none := by
    rw [directory?, locate_wind_detour]
  have hsrcNames : detour.sortedNames ["src"] = [⟨"fx", by decide⟩] := List.mergeSort_singleton _
  have hfxNames : detour.sortedNames ["src", "fx"] = [⟨"wind.glsl", by decide⟩] :=
    List.mergeSort_singleton _
  rw [listing_of_directory? directory?_src, hsrcNames, List.flatMap_singleton]
  change detour.listing "/src/../src/fx" = _
  rw [listing_of_directory? hfx, hfxNames, List.flatMap_singleton]
  exact listing_of_none hfile

theorem listings_detour :
    listings detour ["src/../src", "src/fx/wind.glsl"] = .ok detourCandidates := by
  have hsrc : detour.isDirectory "/src/../src" = true := by
    rw [isDirectory, directory?_src]
    rfl
  have hdir : listingOf detour (absolute detour "src/../src") =
      .ok [⟨"/src/../src/fx/wind.glsl", "fx/wind.glsl"⟩] := by
    have habs : absolute detour "src/../src" = "/src/../src" := by decide
    rw [habs, listingOf, hsrc, if_pos rfl, listing_src]
    decide
  have hfile : listingOf detour (absolute detour "src/fx/wind.glsl") =
      .ok [⟨"/src/fx/wind.glsl", "wind.glsl"⟩] := listingOf_file locate_wind
  exact listings_cons hdir (listings_cons hfile rfl)

theorem collect_detour :
    (collect detour everything ["src/../src", "src/fx/wind.glsl"]).value =
      .ok ⟨detourCandidates, 0⟩ := by
  rw [collect_value, listings_detour]
  decide

theorem named_detour : detour.Named := named_of_nodes (by decide)

/-- The file found by way of the directory has its module below the output directory as it is below
the input. -/
theorem collect_mirrors_detour :
    ∃ i ∈ ["src/../src", "src/fx/wind.glsl"], ∃ init last,
      Candidate.FoundFor detour (absolute detour i) ⟨"/src/../src/fx/wind.glsl", "fx/wind.glsl"⟩
        (init ++ [last]) ∧
      "fx/wind.glsl" = ofNames (init ++ [last]) ∧
      components (modulePath "/src/../src/fx/wind.glsl" "fx/wind.glsl" (some "out") ".js") =
        components "out" ++ named (init ++ [last ++ ".js"]) := by
  obtain ⟨i, hi, init, last, hfound, hrelative, -, hplaces⟩ :=
    collect_mirrors named_detour collect_detour List.mem_cons_self
  exact ⟨i, hi, init, last, hfound, hrelative, (hplaces "out" ".js" (by decide)).2.2.1⟩

end Collection

end ShaderModules
