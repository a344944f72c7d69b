import ShaderModules.Module

/-!
# Offences of a module

`Module.validate` goes through the exports once and keeps the names that it has met. What it
reports can be said of the exports alone: an export offends against those in front of it by a name
that is no identifier, by a name that is taken, or as a second default (`Module.Offends`). A module
is valid exactly if no export offends, which is to say that all names are identifiers and no two
exports agree in their names or in having none (`validate_eq_ok_iff`). Otherwise the error is the
offence of the first export that offends (`exists_of_validate_eq_error`).

* `Module.exists_offends_iff`: when an export offends.
* `Module.Clean`: no export of a list offends (`clean_cons`, `clean_iff`).
* `Module.Tracks`: what the check knows of the exports it has passed (`check_cons`, `check_cases`).
-/

namespace ShaderModules.Module

/-! ## Offences -/

/-- What is wrong with an export that stands behind others. -/
inductive Offends (before : List Export) (e : Export) : StructureError → Prop
  | invalid {name : String} : e.name? = some name → isIdentifier name = false →
      Offends before e (.invalidExportName name)
  | repeated {name : String} : e.name? = some name → isIdentifier name = true →
      name ∈ before.filterMap Export.name? → Offends before e (.duplicateExport name)
  | second : e.name? = none → (∃ d ∈ before, d.name? = none) →
      Offends before e (.duplicateExport "default")

/-- An export offends exactly if its name is no identifier or another one in front of it has the
same name; two default exports agree in having none. -/
theorem exists_offends_iff {before : List Export} {e : Export} : (∃ err, Offends before e err) ↔
    (∃ name, e.name? = some name ∧ isIdentifier name = false) ∨
      ∃ d ∈ before, d.name? = e.name? := by
  constructor
  · rintro ⟨err, ⟨hname, hinvalid⟩ | ⟨hname, -, hmem⟩ | ⟨hnone, d, hd, hdnone⟩⟩
    · exact .inl ⟨_, hname, hinvalid⟩
    · obtain ⟨d, hd, hdname⟩ := List.mem_filterMap.1 hmem
      exact .inr ⟨d, hd, hdname.trans hname.symm⟩
    · exact .inr ⟨d, hd, hdnone.trans hnone.symm⟩
  · rintro (⟨name, hname, hinvalid⟩ | ⟨d, hd, hsame⟩)
    · exact ⟨_, .invalid hname hinvalid⟩
    · cases hname : e.name? with
      | none => exact ⟨_, .second hname ⟨d, hd, hsame.trans hname⟩⟩
      | some name =>
        cases hid : isIdentifier name with
        | false => exact ⟨_, .invalid hname hid⟩
        | true =>
          exact ⟨_, .repeated hname hid (List.mem_filterMap.2 ⟨d, hd, hsame.trans hname⟩)⟩

/-- No export of a list that stands behind others offends. -/
def Clean (before l : List Export) : Prop :=
  ∀ l₁ e l₂, l = l₁ ++ e :: l₂ → ∀ err, ¬ Offends (before ++ l₁) e err

theorem clean_nil (before : List Export) : Clean before [] := by
  intro l₁ e l₂ h
  simp at h

theorem clean_cons {before l : List Export} {e : Export} :
    Clean before (e :: l) ↔ (∀ err, ¬ Offends before e err) ∧ Clean (before ++ [e]) l := by
  constructor
  · intro h
    refine ⟨fun err => ?_, fun l₁ d l₂ hl err => ?_⟩
    · have hfirst := h [] e l rfl err
      rwa [List.append_nil] at hfirst
    · rw [List.append_assoc]
      exact h (e :: l₁) d l₂ (congrArg (e :: ·) hl) err
  · rintro ⟨hfirst, hrest⟩ l₁ d l₂ hl err
    rcases List.cons_eq_append_iff.1 hl with ⟨rfl, hcons⟩ | ⟨l₁, rfl, htail⟩
    · obtain ⟨rfl, -⟩ := List.cons.inj hcons
      rw [List.append_nil]
      exact hfirst err
    · have hbehind := hrest l₁ d l₂ htail err
      rwa [List.append_assoc] at hbehind

/-- No export offends exactly if the names are identifiers and no two exports agree in them. -/
theorem clean_iff {before l : List Export} : Clean before l ↔
    (∀ e ∈ l, ∀ name, e.name? = some name → isIdentifier name = true) ∧
      (l.Pairwise fun d e => d.name? ≠ e.name?) ∧ ∀ d ∈ before, ∀ e ∈ l, d.name? ≠ e.name? := by
  induction l generalizing before with
  | nil => exact iff_of_true (clean_nil before) (by simp)
  | cons e l ih =>
    have hoffends : (∀ err, ¬ Offends before e err) ↔
        (∀ name, e.name? = some name → isIdentifier name = true) ∧
          ∀ d ∈ before, d.name? ≠ e.name? := by
      rw [← not_exists, exists_offends_iff, not_or]
      simp
    rw [clean_cons, ih, hoffends, List.forall_mem_cons, List.pairwise_cons]
    simp only [List.forall_mem_append, List.forall_mem_singleton, List.forall_mem_cons]
    constructor
    · rintro ⟨⟨hid, he⟩, hids, hpairwise, hbefore, hrest⟩
      exact ⟨⟨hid, hids⟩, ⟨hrest, hpairwise⟩, fun d hd => ⟨he d hd, hbefore d hd⟩⟩
    · rintro ⟨⟨hid, hids⟩, ⟨hrest, hpairwise⟩, hbefore⟩
      exact ⟨⟨hid, fun d hd => (hbefore d hd).1⟩, hids, hpairwise, fun d hd => (hbefore d hd).2,
        hrest⟩

/-- No two exports agree in their names, or in having none, exactly if the names are distinct and
there is no second default. -/
theorem pairwise_name?_ne_iff {l : List Export} : (l.Pairwise fun d e => d.name? ≠ e.name?) ↔
    (l.filterMap Export.name?).Nodup ∧ l.countP (fun e => e.name? = none) ≤ 1 := by
  induction l with
  | nil => simp
  | cons e l ih =>
    rw [List.pairwise_cons, ih]
    cases he : e.name? with
    | some name =>
      have hfirst : (∀ d ∈ l, some name ≠ d.name?) ↔ name ∉ l.filterMap Export.name? := by
        simp only [List.mem_filterMap, not_exists, not_and, ne_eq, eq_comm]
      rw [List.filterMap_cons_some he, List.nodup_cons, List.countP_cons_of_neg (by simp [he]),
        hfirst, and_assoc]
    | none =>
      have hfirst : (∀ d ∈ l, none ≠ d.name?) ↔ l.countP (fun e => e.name? = none) = 0 := by
        rw [List.countP_eq_zero]
        exact forall₂_congr fun d _ => by rw [decide_eq_true_eq, ne_comm]
      rw [List.filterMap_cons_none he, List.countP_cons_of_pos (by simp [he]), hfirst]
      constructor
      · rintro ⟨hzero, hdistinct, -⟩
        exact ⟨hdistinct, by omega⟩
      · rintro ⟨hdistinct, hone⟩
        exact ⟨by omega, hdistinct, by omega⟩

/-! ## The check -/

/-- The state of the check behind some exports: their names, and whether one is a default. -/
structure Tracks (before : List Export) (seen : List String) (hasDefault : Bool) : Prop where
  mem_seen : ∀ name, name ∈ seen ↔ name ∈ before.filterMap Export.name?
  hasDefault_iff : hasDefault = true ↔ ∃ d ∈ before, d.name? = none

theorem tracks_nil : Tracks [] [] false := ⟨by simp, by simp⟩

variable {before : List Export} {seen : List String} {hasDefault : Bool}

theorem Tracks.named (h : Tracks before seen hasDefault) {e : Export} {name : String}
    (he : e.name? = some name) : Tracks (before ++ [e]) (name :: seen) hasDefault where
  mem_seen n := by
    rw [List.filterMap_append, List.filterMap_cons_some he, List.filterMap_nil, List.mem_append,
      List.mem_singleton, List.mem_cons, h.mem_seen, or_comm]
  hasDefault_iff := by
    rw [h.hasDefault_iff]
    simp [or_and_right, exists_or, he]

theorem Tracks.unnamed (h : Tracks before seen hasDefault) {e : Export} (he : e.name? = none) :
    Tracks (before ++ [e]) seen true where
  mem_seen n := by
    rw [List.filterMap_append, List.filterMap_cons_none he, List.filterMap_nil, List.append_nil,
      h.mem_seen]
  hasDefault_iff := by simp [he]

/-- The step of the check: it ends with the offence of the next export, or it goes on. -/
theorem check_cons (h : Tracks before seen hasDefault) (e : Export) (rest : List Export) :
    (∃ err, Offends before e err ∧ check seen hasDefault (e :: rest) = .error err) ∨
      (∀ err, ¬ Offends before e err) ∧ ∃ seen' hasDefault',
        Tracks (before ++ [e]) seen' hasDefault' ∧
          check seen hasDefault (e :: rest) = check seen' hasDefault' rest := by
  cases he : e.name? with
  | some name =>
    cases hid : isIdentifier name with
    | false => exact .inl ⟨_, .invalid he hid, by simp [check, he, hid]⟩
    | true =>
      by_cases hseen : name ∈ seen
      · exact .inl ⟨_, .repeated he hid ((h.mem_seen name).1 hseen), by
          simp [check, he, hid, hseen]⟩
      · refine .inr ⟨?_, name :: seen, hasDefault, h.named he, by simp [check, he, hid, hseen]⟩
        rintro err (⟨hn, hinvalid⟩ | ⟨hn, -, hmem⟩ | ⟨hn, -⟩) <;> rw [he] at hn <;> cases hn
        · rw [hid] at hinvalid
          cases hinvalid
        · exact hseen ((h.mem_seen name).2 hmem)
  | none =>
    cases hdefault : hasDefault with
    | true => exact .inl ⟨_, .second he (h.hasDefault_iff.1 hdefault), by simp [check, he]⟩
    | false =>
      refine .inr ⟨?_, seen, true, h.unnamed he, by simp [check, he]⟩
      rintro err (⟨hn, -⟩ | ⟨hn, -, -⟩ | ⟨-, hmem⟩)
      · rw [he] at hn
        cases hn
      · rw [he] at hn
        cases hn
      · rw [h.hasDefault_iff.2 hmem] at hdefault
        cases hdefault

/-- The whole check: no export offends, or the first that does gives the error. -/
theorem check_cases (h : Tracks before seen hasDefault) (l : List Export) :
    (check seen hasDefault l = .ok () ∧ Clean before l) ∨
      ∃ err, check seen hasDefault l = .error err ∧ ∃ l₁ e l₂, l = l₁ ++ e :: l₂ ∧
        Clean before l₁ ∧ Offends (before ++ l₁) e err := by
  induction l generalizing before seen hasDefault with
  | nil => exact .inl ⟨rfl, clean_nil before⟩
  | cons e rest ih =>
    rcases check_cons h e rest with
      ⟨err, herr, hcheck⟩ | ⟨hnone, seen', hasDefault', htracks, hcheck⟩
    · exact .inr ⟨err, hcheck, [], e, rest, rfl, clean_nil before, by rwa [List.append_nil]⟩
    · rw [hcheck]
      rcases ih htracks with ⟨hok, hclean⟩ | ⟨err, herror, l₁, d, l₂, rfl, hclean, hoffends⟩
      · exact .inl ⟨hok, clean_cons.2 ⟨hnone, hclean⟩⟩
      · rw [List.append_assoc] at hoffends
        exact .inr ⟨err, herror, e :: l₁, d, l₂, rfl, clean_cons.2 ⟨hnone, hclean⟩, hoffends⟩

/-! ## Valid modules -/

variable {m : Module}

theorem validate_eq_ok_iff_clean : m.validate = .ok () ↔ Clean [] m.exports := by
  rcases check_cases tracks_nil m.exports with ⟨hok, hclean⟩ | ⟨err, herror, l₁, e, l₂, hl, -, ho⟩
  · exact iff_of_true hok hclean
  · refine iff_of_false (fun h => ?_) fun h => h l₁ e l₂ hl err ho
    rw [validate, herror] at h
    cases h

/-- A module is valid exactly if its exported names are identifiers and no two of its exports have
the same name or are both defaults. -/
theorem validate_eq_ok_iff : m.validate = .ok () ↔
    (∀ name ∈ m.exportNames, isIdentifier name = true) ∧
      m.exports.Pairwise fun d e => d.name? ≠ e.name? := by
  rw [validate_eq_ok_iff_clean, clean_iff]
  simp only [exportNames, List.mem_filterMap, forall_exists_index, and_imp, List.not_mem_nil,
    false_imp_iff, implies_true, and_true]
  exact and_congr_left fun _ => ⟨fun h name e he => h e he name, fun h e he name => h name e he⟩

/-- The error of a module that is not valid is the offence of the first export that offends. -/
theorem exists_of_validate_eq_error {err : StructureError} (h : m.validate = .error err) :
    ∃ before e after, m.exports = before ++ e :: after ∧ Clean [] before ∧
      Offends before e err := by
  rcases check_cases tracks_nil m.exports with ⟨hok, -⟩ | ⟨err', herror, hfirst⟩
  · rw [validate, hok] at h
    cases h
  · rw [validate, herror] at h
    cases h
    exact hfirst

end ShaderModules.Module
