import Mathlib.Order.Bounds.Defs
import Mathlib.Tactic.ByContra
import Mathlib.Tactic.SplitIfs
import ShaderModules.Proofs.Validity

/-!
# The first offence of a module

Exports are acceptable if their names are identifiers, no two names are the same, and at most one is
a default (`Module.Acceptable`). A module is valid exactly if its exports are acceptable. Otherwise
the first export with which they stop being so decides the error, whatever is exported behind it
(`validate_reports_first`).

* `Module.clean_nil_iff`: no export of acceptable exports offends.
* `Module.check_append_of_error`: the check does not look beyond an offence.
-/

namespace ShaderModules.Module

/-! ## Acceptable exports -/

/-- Exports that a module may have. -/
structure Acceptable (l : List Export) : Prop where
  identifiers : ∀ e ∈ l, ∀ name, e.name? = some name → isIdentifier name = true
  distinct : (l.filterMap Export.name?).Nodup
  oneDefault : l.countP (fun e => e.name? = none) ≤ 1

variable {l l' : List Export} {e : Export} {m : Module}

theorem Acceptable.of_sublist (h : Acceptable l) (hsub : l'.Sublist l) : Acceptable l' where
  identifiers e he := h.identifiers e (hsub.subset he)
  distinct := (hsub.filterMap _).nodup h.distinct
  oneDefault := Nat.le_trans hsub.countP_le h.oneDefault

/-- **Exports are acceptable** exactly if none of them offends. -/
theorem clean_nil_iff : Clean [] l ↔ Acceptable l := by
  rw [clean_iff, pairwise_name?_ne_iff]
  constructor
  · rintro ⟨hidentifiers, ⟨hdistinct, honeDefault⟩, -⟩
    exact ⟨hidentifiers, hdistinct, honeDefault⟩
  · rintro ⟨hidentifiers, hdistinct, honeDefault⟩
    exact ⟨hidentifiers, ⟨hdistinct, honeDefault⟩, nofun⟩

/-- The first export that offends is the first with which exports are not acceptable. -/
theorem isLeast_of_offends {before after : List Export} {err : StructureError}
    (hbefore : Clean [] before) (he : Offends before e err) :
    IsLeast {i | ¬Acceptable ((before ++ e :: after).take (i + 1))} before.length := by
  have htake : (before ++ e :: after).take (before.length + 1) = before ++ [e] := by
    rw [List.append_cons, List.take_left' (by simp)]
  constructor
  · change ¬Acceptable _
    rw [htake, ← clean_nil_iff]
    exact fun hclean => hclean before e [] rfl err he
  · intro j hj
    by_contra hlt
    refine hj ((clean_nil_iff.1 hbefore).of_sublist ?_)
    rw [List.take_append_of_le_length (by omega)]
    exact List.take_sublist _ _

/-! ## Exports behind an offence -/

theorem exports_foldl_push (m : Module) (more : List Export) :
    (more.foldl push m).exports = m.exports ++ more := by
  induction more generalizing m with
  | nil => exact (List.append_nil _).symm
  | cons e more ih => rw [List.foldl_cons, ih, push, List.append_assoc, List.singleton_append]

/-- The check does not look beyond an offence. -/
theorem check_append_of_error {seen : List String} {hasDefault : Bool} {err : StructureError}
    (h : check seen hasDefault l = .error err) (more : List Export) :
    check seen hasDefault (l ++ more) = .error err := by
  induction l generalizing seen hasDefault with
  | nil => cases h
  | cons e rest ih =>
    rw [List.cons_append, check]
    rw [check] at h
    cases he : e.name? with
    | some name =>
      rw [he] at h
      dsimp only at h ⊢
      split_ifs at h ⊢ with hinvalid hseen
      · exact h
      · exact h
      · exact ih h
    | none =>
      rw [he] at h
      dsimp only at h ⊢
      split_ifs at h ⊢ with hsecond
      · exact h
      · exact ih h

theorem validate_foldl_push {err : StructureError} (h : m.validate = .error err)
    (more : List Export) : (more.foldl push m).validate = .error err := by
  rw [validate, exports_foldl_push]
  exact check_append_of_error h more

/-! ## The error of a module -/

/-- **The first offence is reported.** A module is valid exactly if its exports are acceptable.
Otherwise the error is the offence of the first export with which they are not, and it stays the
same whatever exports are put behind. -/
theorem validate_reports_first (m : Module) :
    (m.validate = .ok () ↔ Acceptable m.exports) ∧
    (¬Acceptable m.exports → ∃ i e err,
      IsLeast {i | ¬Acceptable (m.exports.take (i + 1))} i ∧ m.exports[i]? = some e ∧
        Offends (m.exports.take i) e err ∧ m.validate = .error err ∧
        ∀ more : List Export, (more.foldl push m).validate = .error err) := by
  have hok : m.validate = .ok () ↔ Acceptable m.exports :=
    validate_eq_ok_iff_clean.trans clean_nil_iff
  refine ⟨hok, fun hnot => ?_⟩
  cases hvalidate : m.validate with
  | ok => exact absurd (hok.1 hvalidate) hnot
  | error err =>
    obtain ⟨before, e, after, hexports, hbefore, he⟩ := exists_of_validate_eq_error hvalidate
    refine ⟨before.length, e, err, ?_, ?_, ?_, rfl, validate_foldl_push hvalidate⟩
    · rw [hexports]
      exact isLeast_of_offends hbefore he
    · rw [hexports, List.getElem?_append_right (Nat.le_refl _), Nat.sub_self]
      rfl
    · rw [hexports, List.take_left]
      exact he

/-- Exports of all kinds, of which the third and the ones behind it offend. -/
def mixed : Module where
  exports := [.value "a" "1", .default "2", .value "1b" "3", .value "a" "4", .default "5"]

/-- The third export has no identifier for a name, which is all that is ever reported. -/
theorem validate_reports_first_mixed :
    ¬Acceptable mixed.exports ∧ ∃ i e, IsLeast {i | ¬Acceptable (mixed.exports.take (i + 1))} i ∧
      mixed.exports[i]? = some e ∧ e.name? = some "1b" ∧
      ∀ more : List Export, (more.foldl push mixed).validate = .error (.invalidExportName "1b") := by
  have hvalidate : mixed.validate = .error (.invalidExportName "1b") := rfl
  have hnot : ¬Acceptable mixed.exports := fun h => by
    have hok := (validate_reports_first mixed).1.2 h
    rw [hvalidate] at hok
    cases hok
  obtain ⟨i, e, err, hleast, hexport, hoffends, herror, hmore⟩ :=
    (validate_reports_first mixed).2 hnot
  cases hvalidate.symm.trans herror
  refine ⟨hnot, i, e, hleast, hexport, ?_, hmore⟩
  cases hoffends with
  | invalid hname => exact hname

end ShaderModules.Module
