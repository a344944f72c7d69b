import Mathlib.Data.List.Lex
import Mathlib.Data.Prod.Lex
import Mathlib.Data.String.Basic
import ShaderModules.Path

/-!
# The order of paths

Paths are ordered by their components: the first component in which they differ decides. The root
comes before `.`, this before `..`, and this before all names, which are ordered by their characters.
So what is below a directory stands together between the neighbours of the directory, where the
order of the texts would put `lib-x` between `lib` and `lib/a`.

* `Path.orderKey`: what paths are ordered by (`orderKey_eq_iff`, `orderKey_lt_of_names`).
-/

namespace ShaderModules.Path

/-- The place of a component among those of other kinds. -/
def Component.rank : Component → Nat
  | .root => 0
  | .here => 1
  | .up => 2
  | .name _ => 3

/-- What components are ordered by: their kind, and names by their characters. -/
def Component.key (c : Component) : ℕ ×ₗ List Char := toLex (c.rank, c.text)

theorem Component.key_injective : Function.Injective Component.key := by
  intro c d h
  obtain ⟨hrank, htext⟩ := Prod.mk.inj (toLex.injective h)
  cases c <;> cases d <;> simp_all [Component.rank, Component.text]

/-- What paths are ordered by. -/
def orderKey (p : String) : List (ℕ ×ₗ List Char) := (components p).map Component.key

variable {p q : String}

/-- Paths stand at the same place exactly if they are equal as paths. -/
theorem orderKey_eq_iff : orderKey p = orderKey q ↔ components p = components q :=
  (List.map_injective_iff.2 Component.key_injective).eq_iff

/-- The first names in which paths differ decide. -/
theorem orderKey_lt_of_names {base x y : List Component} {a b : List Char}
    (hp : components p = base ++ .name a :: x) (hq : components q = base ++ .name b :: y)
    (h : a < b) : orderKey p < orderKey q := by
  have hkey : Component.key (.name a) < Component.key (.name b) := Prod.Lex.lt_iff.2 (.inr ⟨rfl, h⟩)
  rw [orderKey, orderKey, hp, hq, List.map_append, List.map_append, List.map_cons, List.map_cons]
  exact List.Lex.append_left _ (.rel hkey) _

example : orderKey "/lib/z" < orderKey "/lib-x/a" := by decide

end ShaderModules.Path
