import ShaderModules.Path
import ShaderModules.Selection

/-!
# Options of the preprocessor

* `ResolverConfig.optionsFor`: the options for one file. Without a fixed base directory, the
  file's own directory is used.
* `stripInlineMarker`: preprocessed text without the marker line in front.
-/

namespace ShaderModules

/-- The line that a preprocessor puts in front of its output. -/
def inlineMarker : String := "#define GLSLIFY 1\n"

/-- The text without the marker line, if it starts with one. -/
def stripInlineMarker (text : String) : String := (Text.dropPrefix? text inlineMarker).getD text

/-- What is configured for the preprocessor. -/
structure ResolverConfig where
  /-- The directory that references are relative to. -/
  basedir : Option String := none
  included : Patterns := []
  excluded : Patterns := []
  /-- Further options by name. -/
  extra : Keyed String := []
  deriving DecidableEq, Repr

/-- What the preprocessor is told about one file. -/
structure ResolveOptions where
  file : String
  basedir : String
  included : Patterns
  excluded : Patterns
  extra : Keyed String
  deriving DecidableEq, Repr

namespace ResolverConfig

/-- How the preprocessor's configuration is written. -/
def format {R : Type → Type} [Format R] : R ResolverConfig :=
  Format.record "ResolverConfig" {}
    [⟨"basedir", .defaulted, (fun v s => { s with basedir := v }) <$> Format.option Format.path⟩,
     ⟨"include", .defaulted, (fun v s => { s with included := v }) <$> Format.oneOrMany⟩,
     ⟨"exclude", .defaulted, (fun v s => { s with excluded := v }) <$> Format.oneOrMany⟩,
     ⟨"extra", .defaulted, (fun v s => { s with extra := v }) <$> Format.table⟩]

/-- The options for a file. -/
def optionsFor (c : ResolverConfig) (file : String) : ResolveOptions where
  file := file
  basedir := c.basedir.getD ((Path.parent? file).getD "")
  included := c.included
  excluded := c.excluded
  extra := c.extra

end ResolverConfig

end ShaderModules
