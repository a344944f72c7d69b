import ShaderModules.Proofs.Diagnostics
import ShaderModules.Transform

/-!
# Each step of a transform needs the one before

A transform is watched with tools that note their calls (`Tools.noting`). A file that is not selected
causes no call. For any other the preprocessor is called once, with the text of the file and the
options for its path, and the compiler is called once more if there is a preprocessed text, with
this text behind the marker line (`Transform.Calls`). What becomes of the file is decided by the
first step that fails (`Transform.Ends`). Both relations say all of what can happen
(`Transform.watch_iff`).

* `Unmarked`: a text and what is left of it without one marker line in front.
* `CompilerResult.Silent`: a result without diagnostics (`bundle_of_silent`).
* `Transform.Preprocesses`, `Transform.Compiles`, `Transform.Delivers`: how far a file gets.
-/

namespace ShaderModules

/-! ## Texts without the marker line -/

/-- A text and what is left of it: what follows the marker line, if it starts with one, and all of it
otherwise. A second marker line is part of what is left. -/
inductive Unmarked : String → String → Prop
  | marked (rest : String) : Unmarked (inlineMarker ++ rest) rest
  | plain {text : String} : (∀ rest, text ≠ inlineMarker ++ rest) → Unmarked text text

theorem unmarked_iff {text rest : String} : Unmarked text rest ↔ stripInlineMarker text = rest := by
  unfold stripInlineMarker
  cases hdrop : Text.dropPrefix? text inlineMarker with
  | some left =>
    have htext : text = inlineMarker ++ left := Text.dropPrefix?_eq_some_iff.1 hdrop
    rw [Option.getD_some]
    constructor
    · intro h
      cases h with
      | marked rest => exact (String.append_right_inj _).1 htext.symm
      | plain hplain => exact absurd htext (hplain left)
    · rintro rfl
      exact htext ▸ .marked left
  | none =>
    have hplain : ∀ left, text ≠ inlineMarker ++ left := by
      intro left htext
      cases hdrop.symm.trans (Text.dropPrefix?_eq_some_iff.2 htext)
    rw [Option.getD_none]
    constructor
    · intro h
      cases h with
      | marked rest => exact absurd rfl (hplain rest)
      | plain => rfl
    · rintro rfl
      exact .plain hplain

/-! ## Results without diagnostics -/

namespace CompilerResult

/-- There is no log, or an empty one. -/
def Silent (r : CompilerResult) : Prop := r.log = none ∨ r.log = some ""

variable {r : CompilerResult}

theorem silent_or (r : CompilerResult) : r.Silent ∨ ∃ log, r.log = some log ∧ log ≠ "" := by
  cases hlog : r.log with
  | none => exact .inl (.inl hlog)
  | some log =>
    by_cases hempty : log = ""
    · exact .inl (.inr (hempty ▸ hlog))
    · exact .inr ⟨log, rfl, hempty⟩

theorem diagnostics?_of_log {log : String} (h : r.log = some log) (hne : log ≠ "") :
    r.diagnostics? = some log := by
  rw [diagnostics?, h]
  simp [hne]

/-- Without diagnostics, a result is its output. -/
theorem bundle_of_silent (h : r.Silent) (path : String) : r.bundle path =
    match r.output with
    | none => .error (.structure path .emptyResult)
    | some output => (Bundle.parse output).mapError (.structure path) := by
  have hnone : r.diagnostics? = none := by
    rcases h with h | h
    · rw [diagnostics?, h]
      rfl
    · rw [diagnostics?, h]
      simp
  unfold bundle
  rewrite [hnone]
  rfl

end CompilerResult

/-! ## Watching the tools -/

/-- A call of a tool. -/
inductive Call where
  | resolve (source : String) (options : ResolveOptions)
  | compile (source : String) (options : CompileOptions)
  deriving DecidableEq, Repr

/-- Tools that answer as the given ones do and note their calls. -/
def Tools.noting (tools : Tools Id) : Tools (StateM (List Call)) where
  resolve source options := do
    modify (· ++ [.resolve source options])
    return tools.resolve source options
  compile source options := do
    modify (· ++ [.compile source options])
    return tools.compile source options
  resolverName := tools.resolverName
  compilerName := tools.compilerName
  report _ := pure ()

section

variable {tools : Tools Id} {β : Type}

/-- Calling the preprocessor is noting the call and taking the answer. -/
theorem Tools.noting_resolve (source : String) (options : ResolveOptions)
    (rest : Except ToolError String → StateM (List Call) β) (calls : List Call) :
    (tools.noting.resolve source options >>= rest).run calls =
      (rest (tools.resolve source options)).run (calls ++ [.resolve source options]) := rfl

theorem Tools.noting_compile (source : String) (options : CompileOptions)
    (rest : Except ToolError CompilerResult → StateM (List Call) β) (calls : List Call) :
    (tools.noting.compile source options >>= rest).run calls =
      (rest (tools.compile source options)).run (calls ++ [.compile source options]) := rfl

theorem Tools.noting_report (e : Event) (rest : StateM (List Call) β) :
    (tools.noting.report e >>= fun _ => rest) = rest := rfl

end

namespace Transform

variable (t : Transform) (tools : Tools Id) (path code : String)

/-- What becomes of a file with the given text, and the calls that are made for it. -/
def watch : Except TransformError (Option Generated) × List Call :=
  (t.run tools.noting path code).run []

/-- The call of the preprocessor for a file. -/
def resolveCall : Call := .resolve code (t.resolverConfig.optionsFor path)

/-! ## How far a file gets -/

/-- The file is selected and preprocessed; the compiler is to have this text. -/
inductive Preprocesses : String → Prop
  | intro {inlined text : String} : t.selector.selects path = true →
    tools.resolve code (t.resolverConfig.optionsFor path) = .ok inlined →
    Unmarked inlined text → Preprocesses text

/-- The preprocessed file is compiled with this result. -/
inductive Compiles : CompilerResult → Prop
  | intro {text : String} {result : CompilerResult} : t.Preprocesses tools path code text →
    tools.compile text t.compileOptions = .ok result → Compiles result

/-- The compiler has nothing to complain of, and its output is this bundle. -/
inductive Delivers : Bundle → Prop
  | intro {result : CompilerResult} {output : String} {b : Bundle} :
    t.Compiles tools path code result → result.Silent → result.output = some output →
    Bundle.parse output = .ok b → Delivers b

/-- The calls that are made for a file. -/
inductive Calls : List Call → Prop
  | unselected : t.selector.selects path = false → Calls []
  | unresolved {e : ToolError} : t.selector.selects path = true →
    tools.resolve code (t.resolverConfig.optionsFor path) = .error e →
    Calls [t.resolveCall path code]
  | both {text : String} : t.Preprocesses tools path code text →
    Calls [t.resolveCall path code, .compile text t.compileOptions]

/-- What becomes of a file: nothing if it is not selected, the error of the first step that fails, or
its module. Diagnostics are an error whatever the output is. -/
inductive Ends : Except TransformError (Option Generated) → Prop
  | unselected : t.selector.selects path = false → Ends (.ok none)
  | unresolved {e : ToolError} : t.selector.selects path = true →
    tools.resolve code (t.resolverConfig.optionsFor path) = .error e →
    Ends (.error (.resolution path e))
  | uncompiled {text : String} {e : ToolError} : t.Preprocesses tools path code text →
    tools.compile text t.compileOptions = .error e → Ends (.error (.compiler path e))
  | diagnosed {result : CompilerResult} {log : String} : t.Compiles tools path code result →
    result.log = some log → log ≠ "" →
    Ends (.error (.compilation path (Text.replace log placeholderInput path)))
  | empty {result : CompilerResult} : t.Compiles tools path code result → result.Silent →
    result.output = none → Ends (.error (.structure path .emptyResult))
  | unread {result : CompilerResult} {output : String} {e : StructureError} :
    t.Compiles tools path code result → result.Silent → result.output = some output →
    Bundle.parse output = .error e → Ends (.error (.structure path e))
  | invalid {b : Bundle} {e : StructureError} : t.Delivers tools path code b →
    b.synthesize t.naming = .error e → Ends (.error (.structure path e))
  | made {b : Bundle} {g : Generated} : t.Delivers tools path code b →
    b.synthesize t.naming = .ok g → Ends (.ok (some g))

/-! ## What is watched -/

variable {t tools path code}

theorem watch_unselected (h : t.selector.selects path = false) :
    t.watch tools path code = (.ok none, []) := by
  unfold watch run
  rw [h]
  rfl

/-- A file that is selected is preprocessed, and compiled if there is a preprocessed text. -/
theorem watch_selected (h : t.selector.selects path = true) : t.watch tools path code =
    match tools.resolve code (t.resolverConfig.optionsFor path) with
    | .error e => (.error (.resolution path e), [t.resolveCall path code])
    | .ok inlined =>
      let calls := [t.resolveCall path code,
        .compile (stripInlineMarker inlined) t.compileOptions]
      match tools.compile (stripInlineMarker inlined) t.compileOptions with
      | .error e => (.error (.compiler path e), calls)
      | .ok result => (t.finish tools.noting path result).run calls := by
  unfold watch run
  rw [h]
  simp only [Bool.not_true, Bool.false_eq_true, if_false, Tools.noting_report,
    Tools.noting_resolve]
  cases tools.resolve code (t.resolverConfig.optionsFor path) with
  | error e => rfl
  | ok inlined =>
    simp only [Tools.noting_compile]
    cases tools.compile (stripInlineMarker inlined) t.compileOptions with
    | error e => rfl
    | ok result => rfl

theorem watch_unresolved {e : ToolError} (h : t.selector.selects path = true)
    (hresolve : tools.resolve code (t.resolverConfig.optionsFor path) = .error e) :
    t.watch tools path code = (.error (.resolution path e), [t.resolveCall path code]) := by
  simp only [watch_selected h, hresolve]

theorem watch_uncompiled {text : String} {e : ToolError} (h : t.Preprocesses tools path code text)
    (hcompile : tools.compile text t.compileOptions = .error e) :
    t.watch tools path code = (.error (.compiler path e),
      [t.resolveCall path code, .compile text t.compileOptions]) := by
  obtain ⟨hselects, hresolve, htext⟩ := h
  simp only [watch_selected hselects, hresolve, unmarked_iff.1 htext, hcompile]

/-- Making a module of a result causes no calls. -/
theorem finish_noting (result : CompilerResult) (calls : List Call) :
    (t.finish tools.noting path result).run calls =
      ((result.bundle path).bind fun b =>
        ((b.synthesize t.naming).mapError (.structure path)).map some, calls) := by
  unfold finish
  cases result.bundle path with
  | error e => rfl
  | ok b =>
    simp only [Tools.noting, bind_pure_comp, map_pure, List.forIn_pure_yield_eq_foldl,
      List.foldl_fixed, StateT.run_pure]
    rfl

theorem watch_compiled {text : String} {result : CompilerResult}
    (h : t.Preprocesses tools path code text)
    (hcompile : tools.compile text t.compileOptions = .ok result) :
    t.watch tools path code = ((result.bundle path).bind fun b =>
      ((b.synthesize t.naming).mapError (.structure path)).map some,
      [t.resolveCall path code, .compile text t.compileOptions]) := by
  obtain ⟨hselects, hresolve, htext⟩ := h
  simp only [watch_selected hselects, hresolve, unmarked_iff.1 htext, hcompile, finish_noting]

/-- What becomes of a compiled file is decided by the bundle of the result. -/
theorem Compiles.watch_fst {result : CompilerResult} (h : t.Compiles tools path code result) :
    (t.watch tools path code).1 = (result.bundle path).bind fun b =>
      ((b.synthesize t.naming).mapError (.structure path)).map some := by
  obtain ⟨htext, hcompile⟩ := h
  rw [watch_compiled htext hcompile]

theorem Delivers.watch_fst {b : Bundle} (h : t.Delivers tools path code b) :
    (t.watch tools path code).1 = ((b.synthesize t.naming).mapError (.structure path)).map some := by
  obtain ⟨hcompiles, hsilent, houtput, hparse⟩ := h
  rw [hcompiles.watch_fst, CompilerResult.bundle_of_silent hsilent, houtput]
  dsimp only
  rw [hparse]
  rfl

/-! ## Nothing else happens -/

/-- What a file may come to is what is watched. -/
theorem Ends.watch_fst {outcome : Except TransformError (Option Generated)}
    (h : t.Ends tools path code outcome) : (t.watch tools path code).1 = outcome := by
  cases h with
  | unselected hselects => rw [watch_unselected hselects]
  | unresolved hselects hresolve => rw [watch_unresolved hselects hresolve]
  | uncompiled htext hcompile => rw [watch_uncompiled htext hcompile]
  | diagnosed hcompiles hlog hne =>
    have hbundle := ExternalCompiler.bundle_of_diagnostics?
      (CompilerResult.diagnostics?_of_log hlog hne) path
    rw [hcompiles.watch_fst, hbundle]
    rfl
  | empty hcompiles hsilent houtput =>
    rw [hcompiles.watch_fst, CompilerResult.bundle_of_silent hsilent, houtput]
    rfl
  | unread hcompiles hsilent houtput hparse =>
    rw [hcompiles.watch_fst, CompilerResult.bundle_of_silent hsilent, houtput]
    dsimp only
    rw [hparse]
    rfl
  | invalid hdelivers hmodule =>
    rw [hdelivers.watch_fst, hmodule]
    rfl
  | made hdelivers hmodule =>
    rw [hdelivers.watch_fst, hmodule]
    rfl

theorem Calls.watch_snd {calls : List Call} (h : t.Calls tools path code calls) :
    (t.watch tools path code).2 = calls := by
  cases h with
  | unselected hselects => rw [watch_unselected hselects]
  | unresolved hselects hresolve => rw [watch_unresolved hselects hresolve]
  | @both text htext =>
    cases hcompile : tools.compile text t.compileOptions with
    | error e => rw [watch_uncompiled htext hcompile]
    | ok result => rw [watch_compiled htext hcompile]

/-- A compiled file comes to something. -/
theorem Compiles.exists_ends {result : CompilerResult} (h : t.Compiles tools path code result) :
    ∃ outcome, t.Ends tools path code outcome := by
  rcases result.silent_or with hsilent | ⟨log, hlog, hne⟩
  · cases houtput : result.output with
    | none => exact ⟨_, .empty h hsilent houtput⟩
    | some output =>
      cases hparse : Bundle.parse output with
      | error e => exact ⟨_, .unread h hsilent houtput hparse⟩
      | ok b =>
        have hdelivers : t.Delivers tools path code b := .intro h hsilent houtput hparse
        cases hmodule : b.synthesize t.naming with
        | error e => exact ⟨_, .invalid hdelivers hmodule⟩
        | ok g => exact ⟨_, .made hdelivers hmodule⟩
  · exact ⟨_, .diagnosed h hlog hne⟩

/-- Every file comes to something, with some calls. -/
theorem exists_ends_calls (t : Transform) (tools : Tools Id) (path code : String) :
    (∃ outcome, t.Ends tools path code outcome) ∧ ∃ calls, t.Calls tools path code calls := by
  cases hselects : t.selector.selects path with
  | false => exact ⟨⟨_, .unselected hselects⟩, _, .unselected hselects⟩
  | true =>
    cases hresolve : tools.resolve code (t.resolverConfig.optionsFor path) with
    | error e => exact ⟨⟨_, .unresolved hselects hresolve⟩, _, .unresolved hselects hresolve⟩
    | ok inlined =>
      have htext : t.Preprocesses tools path code (stripInlineMarker inlined) :=
        .intro hselects hresolve (unmarked_iff.2 rfl)
      refine ⟨?_, _, .both htext⟩
      cases hcompile : tools.compile (stripInlineMarker inlined) t.compileOptions with
      | error e => exact ⟨_, .uncompiled htext hcompile⟩
      | ok result => exact Compiles.exists_ends (.intro htext hcompile)

/-- **Each step needs the one before, and the first that fails gives the error.** With any tools, a
file comes to what `Ends` says, by the calls that `Calls` says. There are no calls exactly if the file
is not selected, which is when there is neither a module nor an error. -/
theorem watch_iff (t : Transform) (tools : Tools Id) (path code : String) :
    (∀ outcome, (t.watch tools path code).1 = outcome ↔ t.Ends tools path code outcome) ∧
    (∀ calls, (t.watch tools path code).2 = calls ↔ t.Calls tools path code calls) ∧
    ((t.watch tools path code).2 = [] ↔ t.selector.selects path = false) ∧
    ((t.watch tools path code).1 = .ok none ↔ t.selector.selects path = false) := by
  obtain ⟨⟨outcome, hends⟩, calls, hcalls⟩ := t.exists_ends_calls tools path code
  have houtcome : ∀ o, (t.watch tools path code).1 = o ↔ t.Ends tools path code o :=
    fun o => ⟨fun h => h ▸ hends.watch_fst ▸ hends, Ends.watch_fst⟩
  have hmade : ∀ l, (t.watch tools path code).2 = l ↔ t.Calls tools path code l :=
    fun l => ⟨fun h => h ▸ hcalls.watch_snd ▸ hcalls, Calls.watch_snd⟩
  refine ⟨houtcome, hmade, (hmade []).trans ⟨?_, .unselected⟩, (houtcome _).trans ⟨?_, .unselected⟩⟩
  · rintro ⟨hselects⟩
    exact hselects
  · rintro ⟨hselects⟩
    exact hselects

end Transform

end ShaderModules
