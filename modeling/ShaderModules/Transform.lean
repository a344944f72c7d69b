import ShaderModules.Compiler.Options
import ShaderModules.Compiler.Result
import ShaderModules.Event
import ShaderModules.Preprocessor.Options
import ShaderModules.Synthesis

/-!
# Transforming a file

A selected file is preprocessed, compiled and made into a module. Each step needs the one before
it; the first that fails gives the error.

* `Tools`: the preprocessor and the compiler, as actions of a monad.
* `Transform.run`: the module of a file, or nothing when the file is not selected.
-/

namespace ShaderModules

/-- The preprocessor and the compiler, which act in `m`. -/
structure Tools (m : Type → Type) where
  /-- Inlines the dependencies of a text. -/
  resolve : String → ResolveOptions → m (Except ToolError String)
  /-- Compiles a preprocessed text. -/
  compile : String → CompileOptions → m (Except ToolError CompilerResult)
  resolverName : String := ""
  compilerName : String := ""
  /-- Reports an event. -/
  report : Event → m Unit

/-- How files are transformed. -/
structure Transform where
  selector : Selector
  resolverConfig : ResolverConfig := {}
  compileOptions : CompileOptions := {}
  naming : Naming := {}

namespace Transform

variable {m : Type → Type} [Monad m]

/-- The events of making a module of a bundle. -/
def synthesisEvents (naming : Naming) (b : Bundle) : List Event :=
  match Classified.ofBundle b naming.suffixes with
  | .error _ => []
  | .ok c =>
    let origin := "shader_core::synthesizer"
    let sorted : Event := ⟨.trace, origin,
      "Classified " ++ toString c.vertex.size ++ " vertex, " ++ toString c.fragment.size ++
        " fragment, " ++ toString c.other.size ++ " other snippets"⟩
    match (c.plan naming).validate with
    | .error _ => [sorted]
    | .ok _ => [sorted, ⟨.debug, origin, "Synthesized " ++ toString (c.plan naming).exports.length ++
        " exports from " ++ toString b.size ++ " snippets"⟩]

/-- The module of a compiled file. -/
def finish (t : Transform) (tools : Tools m) (path : String) (result : CompilerResult) :
    m (Except TransformError (Option Generated)) :=
  match result.bundle path with
  | .error e => pure (.error e)
  | .ok b => do
    for e in synthesisEvents t.naming b do tools.report e
    pure (((b.synthesize t.naming).mapError (.structure path)).map some)

/-- The module of a file with the given text, or nothing when the file is not selected. -/
def run (t : Transform) (tools : Tools m) (path code : String) :
    m (Except TransformError (Option Generated)) := do
  let origin := "shader_core::transform"
  if !t.selector.selects path then
    tools.report ⟨.trace, origin, "Skipping " ++ path ++ " (not selected)"⟩
    return .ok none
  let options := t.resolverConfig.optionsFor path
  tools.report ⟨.debug, origin, "Resolving " ++ path ++ " with " ++ tools.resolverName ++
    " (basedir " ++ options.basedir ++ ")"⟩
  match ← tools.resolve code options with
  | .error e => return .error (.resolution path e)
  | .ok inlined =>
    tools.report ⟨.debug, origin, "Compiling " ++ path ++ " with " ++ tools.compilerName⟩
    match ← tools.compile (stripInlineMarker inlined) t.compileOptions with
    | .error e => return .error (.compiler path e)
    | .ok result => t.finish tools path result

end Transform

end ShaderModules
