import Mathlib.Data.List.Induction
import Mathlib.Data.List.Nodup
import ShaderModules.Command
import ShaderModules.Proofs.Text.Pieces

/-!
# Placeholders and what is filled in for them

`ExternalCommand.fill` goes through the text once for every name. The meaning of an argument is
given by one scan of it (`ExternalCommand.scan`), which reads no value and knows no order of the
names. The two agree as long as no value takes part in a placeholder of a later name, and no longer
(`fill_eq_scan_iff`). So they agree if the values have no opening brace and every brace of the
argument opens a placeholder (`fill_of_wellFormed`).

* `ExternalCommand.Bare`: a name without braces.
* `ExternalCommand.slots`: how many placeholders of a name stand in a text.
* `ExternalCommand.WellFormed`: a text in which braces only make placeholders.
-/

namespace ShaderModules.ExternalCommand

open Text

/-- A name without braces. -/
def Bare (name : String) : Prop := '\x7b' ∉ name.toList ∧ '\x7d' ∉ name.toList

instance (name : String) : Decidable (Bare name) :=
  inferInstanceAs (Decidable (_ ∧ _))

theorem placeholder_toList (name : String) :
    (placeholder name).toList = '\x7b' :: (name.toList ++ ['\x7d']) := by
  simp [placeholder]

theorem Bare.notMem_tail {name : String} (h : Bare name) : '\x7b' ∉ name.toList ++ ['\x7d'] := by
  simpa using h.1

theorem Bare.leadsOnce {name : String} (h : Bare name) : LeadsOnce (placeholder name).toList :=
  ⟨'\x7b', _, placeholder_toList name, h.notMem_tail⟩

/-- A text starts with the placeholder of one bare name only. -/
theorem placeholder_append_inj {name other : String} (h : Bare name) (h' : Bare other)
    {s t : List Char} (heq : (placeholder name).toList ++ s = (placeholder other).toList ++ t) :
    name = other ∧ s = t := by
  rw [placeholder_toList, placeholder_toList, List.cons_append, List.cons_append,
    List.append_assoc, List.append_assoc, List.cons_inj_right] at heq
  obtain ⟨hname, hrest⟩ := append_cons_inj h.2 h'.2 heq
  exact ⟨String.toList_inj.1 hname, hrest⟩

/-! ## The scan -/

/-- The value of the placeholder that a text starts with, and what stands behind it. -/
def placeholderAt? (vars : Keyed String) (s : List Char) : Option (String × List Char) :=
  vars.findSome? fun v => (stripPrefix? (placeholder v.1).toList s).map fun rest => (v.2, rest)

theorem exists_of_placeholderAt? {vars : Keyed String} {s rest : List Char} {value : String}
    (h : placeholderAt? vars s = some (value, rest)) :
    ∃ name, (name, value) ∈ vars ∧ s = (placeholder name).toList ++ rest := by
  obtain ⟨⟨name, _⟩, hv, hat⟩ := List.exists_of_findSome?_eq_some h
  obtain ⟨_, hstrip, heq⟩ := Option.map_eq_some_iff.1 hat
  cases heq
  exact ⟨name, hv, stripPrefix?_eq_some_iff.1 hstrip⟩

theorem placeholderAt?_eq_none_iff {vars : Keyed String} {s : List Char} :
    placeholderAt? vars s = none ↔ ∀ v ∈ vars, ¬ (placeholder v.1).toList <+: s := by
  rw [placeholderAt?, List.findSome?_eq_none_iff]
  simp only [Option.map_eq_none_iff, stripPrefix?_eq_none_iff]

theorem placeholderAt?_length {vars : Keyed String} {s rest : List Char} {value : String}
    (h : placeholderAt? vars s = some (value, rest)) : rest.length < s.length := by
  obtain ⟨name, -, rfl⟩ := exists_of_placeholderAt? h
  rw [placeholder_toList]
  simp
  omega

/-- One scan of a text from left to right: a placeholder of a known name is replaced by the value,
which is not read, and everything else is copied. -/
def scanFrom (vars : Keyed String) : List Char → List Char
  | [] => []
  | c :: s =>
    match _h : placeholderAt? vars (c :: s) with
    | some (value, rest) => value.toList ++ scanFrom vars rest
    | none => c :: scanFrom vars s
termination_by s => s.length
decreasing_by
  · exact placeholderAt?_length _h
  · simp

/-- What an argument means. -/
def scan (vars : Keyed String) (arg : String) : String := String.ofList (scanFrom vars arg.toList)

variable {vars : Keyed String} {c : Char} {s t : List Char}

theorem scanFrom_cons_of_none (h : placeholderAt? vars (c :: s) = none) :
    scanFrom vars (c :: s) = c :: scanFrom vars s := by
  rw [scanFrom]
  split
  · rename_i hsome
    rw [h] at hsome
    cases hsome
  · rfl

theorem scanFrom_of_some {value : String} {rest : List Char}
    (h : placeholderAt? vars s = some (value, rest)) :
    scanFrom vars s = value.toList ++ scanFrom vars rest := by
  cases s with
  | nil => exact absurd (placeholderAt?_length h) (Nat.not_lt_zero _)
  | cons c s =>
    rw [scanFrom]
    split
    · rename_i hsome
      rw [h] at hsome
      cases hsome
      rfl
    · rename_i hnone
      rw [h] at hnone
      cases hnone

theorem scanFrom_nil (s : List Char) : scanFrom [] s = s := by
  induction s with
  | nil => rw [scanFrom]
  | cons c s ih => rw [scanFrom_cons_of_none rfl, ih]

/-- The scan only asks what is known at each place. -/
theorem scanFrom_congr {vars' : Keyed String}
    (h : ∀ s', s' <:+ s → placeholderAt? vars' s' = placeholderAt? vars s') :
    scanFrom vars' s = scanFrom vars s := by
  fun_induction scanFrom vars s with
  | case1 => rw [scanFrom]
  | case2 c s value rest hat ih =>
    obtain ⟨name, -, heq⟩ := exists_of_placeholderAt? hat
    rw [scanFrom_of_some ((h _ List.suffix_rfl).trans hat),
      ih fun s' hs' => h s' (hs'.trans ⟨_, heq.symm⟩)]
  | case3 c s hat ih =>
    rw [scanFrom_cons_of_none ((h _ List.suffix_rfl).trans hat),
      ih fun s' hs' => h s' (hs'.trans (List.suffix_cons c s))]

/-- No placeholder starts at another character than an opening brace. -/
theorem placeholderAt?_of_ne (hc : c ≠ '\x7b') : placeholderAt? vars (c :: s) = none := by
  refine placeholderAt?_eq_none_iff.2 fun v _ hpre => ?_
  rw [placeholder_toList, List.cons_prefix_cons] at hpre
  exact hc hpre.1.symm

/-- Text without an opening brace is copied. -/
theorem scanFrom_copied (h : '\x7b' ∉ s) (t : List Char) :
    scanFrom vars (s ++ t) = s ++ scanFrom vars t := by
  induction s with
  | nil => rfl
  | cons c s ih =>
    obtain ⟨hc, hs⟩ := not_or.1 (mt List.mem_cons.2 h)
    rw [List.cons_append, scanFrom_cons_of_none (placeholderAt?_of_ne (Ne.symm hc)), ih hs]
    rfl

/-! ### Names without braces -/

/-- Names without braces, each of them once. -/
structure Distinct (vars : Keyed String) : Prop where
  bare : ∀ v ∈ vars, Bare v.1
  nodup : (vars.map Prod.fst).Nodup

theorem Distinct.of_prefix {before : Keyed String} (h : Distinct vars) (hpre : before <+: vars) :
    Distinct before :=
  ⟨fun v hv => h.bare v (hpre.subset hv), h.nodup.sublist (hpre.sublist.map Prod.fst)⟩

theorem Distinct.of_perm {vars' : Keyed String} (h : Distinct vars) (hperm : vars'.Perm vars) :
    Distinct vars' :=
  ⟨fun v hv => h.bare v (hperm.mem_iff.1 hv), (hperm.map Prod.fst).nodup_iff.2 h.nodup⟩

theorem Distinct.notMem {v : String × String} (h : Distinct (vars ++ [v])) :
    v.1 ∉ vars.map Prod.fst := by
  have hnodup := h.nodup
  rw [List.map_append, List.nodup_append] at hnodup
  exact fun hin => hnodup.2.2 v.1 hin v.1 (List.mem_singleton_self _) rfl

/-- At most one known placeholder starts at a place, whatever the order of the names. -/
theorem Distinct.placeholderAt?_eq_some_iff (h : Distinct vars) {value : String}
    {rest : List Char} : placeholderAt? vars s = some (value, rest) ↔
      ∃ name, (name, value) ∈ vars ∧ s = (placeholder name).toList ++ rest := by
  refine ⟨exists_of_placeholderAt?, ?_⟩
  rintro ⟨name, hv, rfl⟩
  cases hat : placeholderAt? vars ((placeholder name).toList ++ rest) with
  | none =>
    have hnot := placeholderAt?_eq_none_iff.1 hat (name, value) hv
    exact absurd (List.prefix_append (placeholder name).toList rest) hnot
  | some found =>
    obtain ⟨other, hother, heq⟩ := exists_of_placeholderAt? hat
    obtain ⟨rfl, hrest⟩ := placeholder_append_inj (h.bare _ hv) (h.bare _ hother) heq
    have hvalue := List.inj_on_of_nodup_map h.nodup hv hother rfl
    rw [hrest, (Prod.mk.inj hvalue).2]

/-- **The order of the names** does not matter to the scan. -/
theorem Distinct.scanFrom_perm {vars' : Keyed String} (h : Distinct vars)
    (hperm : vars'.Perm vars) (s : List Char) : scanFrom vars' s = scanFrom vars s := by
  refine scanFrom_congr fun s' _ => Option.ext fun ⟨value, rest⟩ => ?_
  rw [(h.of_perm hperm).placeholderAt?_eq_some_iff, h.placeholderAt?_eq_some_iff]
  simp only [hperm.mem_iff]

/-- A placeholder of an unknown name is copied. -/
theorem Distinct.scanFrom_unknown (h : Distinct vars) {name : String} (hname : Bare name)
    (hnot : name ∉ vars.map Prod.fst) (t : List Char) :
    scanFrom vars ((placeholder name).toList ++ t) =
      (placeholder name).toList ++ scanFrom vars t := by
  have hnone : placeholderAt? vars ((placeholder name).toList ++ t) = none := by
    refine placeholderAt?_eq_none_iff.2 fun v hv ⟨rest, heq⟩ => ?_
    obtain ⟨rfl, -⟩ := placeholder_append_inj (h.bare v hv) hname heq
    exact hnot (List.mem_map_of_mem hv)
  rw [placeholder_toList, List.cons_append] at hnone ⊢
  rw [scanFrom_cons_of_none hnone, scanFrom_copied hname.notMem_tail]
  rfl

theorem Distinct.scanFrom_known (h : Distinct vars) {name value : String}
    (hv : (name, value) ∈ vars) (t : List Char) :
    scanFrom vars ((placeholder name).toList ++ t) = value.toList ++ scanFrom vars t :=
  scanFrom_of_some (h.placeholderAt?_eq_some_iff.2 ⟨name, hv, rfl⟩)

/-- No placeholder goes on behind an opening brace. -/
theorem placeholder_prefix_append_iff {name : String} (hname : Bare name) (hs : s ≠ []) :
    (placeholder name).toList <+: s ++ '\x7b' :: t ↔ (placeholder name).toList <+: s := by
  refine ⟨fun hpre => ?_, fun hpre => hpre.trans (List.prefix_append _ _)⟩
  rcases prefix_append_cases hpre with hin | ⟨b, hb, heq, hbrace⟩
  · exact hin
  · obtain ⟨d, b, rfl⟩ := List.exists_cons_of_ne_nil hb
    obtain ⟨x, s, rfl⟩ := List.exists_cons_of_ne_nil hs
    rw [List.cons_prefix_cons] at hbrace
    obtain ⟨rfl, -⟩ := hbrace
    rw [placeholder_toList, List.cons_append] at heq
    refine absurd ?_ hname.notMem_tail
    rw [(List.cons.inj heq).2]
    exact List.mem_append_right s List.mem_cons_self

/-- A text is scanned part by part, if an opening brace stands where it is cut. -/
theorem Distinct.scanFrom_append (h : Distinct vars) (s t : List Char) :
    scanFrom vars (s ++ '\x7b' :: t) = scanFrom vars s ++ scanFrom vars ('\x7b' :: t) := by
  fun_induction scanFrom vars s with
  | case1 => rfl
  | case2 c s value rest hat ih =>
    obtain ⟨name, hv, heq⟩ := exists_of_placeholderAt? hat
    rw [heq, List.append_assoc, h.scanFrom_known hv, ih, List.append_assoc]
  | case3 c s hat ih =>
    have hnone : placeholderAt? vars (c :: (s ++ '\x7b' :: t)) = none := by
      rw [placeholderAt?_eq_none_iff] at hat ⊢
      -- what starts here ends in front of the brace, and would be found without what follows
      exact fun v hv hpre => hat v hv
        ((placeholder_prefix_append_iff (h.bare v hv) (List.cons_ne_nil c s)).1 hpre)
    rw [List.cons_append, scanFrom_cons_of_none hnone, ih]
    rfl

/-! ## Filling in against the scan -/

/-- How many placeholders of a name stand in a text. -/
def slots (name text : String) : Nat := occurrences (placeholder name).toList text.toList

/-- The parts between the placeholders of a name are scanned one by one. -/
theorem Distinct.scanFrom_intercalate (h : Distinct vars) {name : String} {value : List Char}
    (hvalue : ∀ t, scanFrom vars ((placeholder name).toList ++ t) = value ++ scanFrom vars t)
    (parts : List (List Char)) :
    scanFrom vars ((placeholder name).toList.intercalate parts) =
      value.intercalate (parts.map (scanFrom vars)) := by
  induction parts with
  | nil => simp [scanFrom]
  | cons p parts ih =>
    by_cases hnil : parts = []
    · simp [hnil]
    · have happend := h.scanFrom_append p
        ((name.toList ++ ['\x7d']) ++ (placeholder name).toList.intercalate parts)
      rw [← List.cons_append, ← placeholder_toList, hvalue, ih] at happend
      rw [List.intercalate_cons_of_ne_nil hnil, List.append_assoc, happend, List.map_cons,
        List.intercalate_cons_of_ne_nil (by simpa using hnil), List.append_assoc]

/-- Text without placeholders of a name means the same if the name is known. -/
theorem scanFrom_concat {name value : String} (hs : ¬ (placeholder name).toList <:+: s) :
    scanFrom (vars ++ [(name, value)]) s = scanFrom vars s := by
  refine scanFrom_congr fun s' hs' => ?_
  have hnone : stripPrefix? (placeholder name).toList s' = none :=
    stripPrefix?_eq_none_iff.2 fun hpre => hs (hpre.isInfix.trans hs'.isInfix)
  simp [placeholderAt?, List.findSome?_append, hnone]

/-- **Filling in one more name** keeps the meaning exactly if no placeholder of the name has come
up that the argument does not have. -/
theorem Distinct.fill_concat_iff {before : Keyed String} {v : String × String}
    (h : Distinct (before ++ [v])) {arg : String} (heq : fill before arg = scan before arg) :
    fill (before ++ [v]) arg = scan (before ++ [v]) arg ↔
      v.2 = placeholder v.1 ∨ slots v.1 (scan before arg) = slots v.1 arg := by
  obtain ⟨name, value⟩ := v
  have hbefore := h.of_prefix (List.prefix_append before [(name, value)])
  have hmem : (name, value) ∈ before ++ [(name, value)] :=
    List.mem_append_right before (List.mem_singleton_self _)
  have hname : Bare name := h.bare _ hmem
  have hnot : name ∉ before.map Prod.fst := h.notMem
  -- the argument is cut at the placeholders of the name
  let parts := splitOn (placeholder name).toList arg.toList
  have hjoined : (placeholder name).toList.intercalate parts = arg.toList :=
    intercalate_splitOn _ _
  have hne : parts.map (scanFrom before) ≠ [] := by simpa using splitOn_ne_nil _ _
  have hold : scanFrom before arg.toList =
      (placeholder name).toList.intercalate (parts.map (scanFrom before)) := by
    rw [← hjoined, hbefore.scanFrom_intercalate (hbefore.scanFrom_unknown hname hnot)]
  have hnew : scanFrom (before ++ [(name, value)]) arg.toList =
      value.toList.intercalate (parts.map (scanFrom before)) := by
    rw [← hjoined, h.scanFrom_intercalate (h.scanFrom_known hmem),
      List.map_congr_left fun p hp =>
        scanFrom_concat (not_infix_of_mem_splitOn hname.leadsOnce.ne_nil hp)]
  have hfill : fill (before ++ [(name, value)]) arg =
      replace (scan before arg) (placeholder name) value := by
    rw [← heq, fill, List.foldl_append]
    rfl
  have hslots := occurrences_intercalate hname.leadsOnce hne
  have hcount := length_splitOn (placeholder name).toList arg.toList
  rw [← hold, List.length_map] at hslots
  rw [hfill, replace, scan, scan, String.toList_ofList, hold, hnew, String.ofList_inj,
    replaceAll_intercalate_eq_iff hname.leadsOnce hne, String.toList_inj,
    ← sum_occurrences_eq_zero_iff hname.leadsOnce.ne_nil]
  refine or_congr_right ?_
  dsimp only [slots]
  rw [String.toList_ofList, ← hold]
  change parts.length = _ at hcount
  omega

/-- The names are filled in one after the other, so every step counts. -/
theorem Distinct.fill_prefixes_iff (h : Distinct vars) (arg : String) :
    (∀ before, before <+: vars → fill before arg = scan before arg) ↔
      ∀ before v, before ++ [v] <+: vars →
        v.2 = placeholder v.1 ∨ slots v.1 (scan before arg) = slots v.1 arg := by
  constructor
  · intro hfill before v hpre
    refine ((h.of_prefix hpre).fill_concat_iff ?_).1 (hfill _ hpre)
    exact hfill before ((List.prefix_append before [v]).trans hpre)
  · intro hslots before
    induction before using List.reverseRecOn with
    | nil =>
      intro _
      rw [scan, scanFrom_nil, String.ofList_toList]
      rfl
    | append_singleton before v ih =>
      intro hpre
      have hbefore := ih ((List.prefix_append before [v]).trans hpre)
      exact ((h.of_prefix hpre).fill_concat_iff hbefore).2 (hslots before v hpre)

/-- **Filling in and the scan**: going through the names one after the other gives what the scan
gives, at every step, exactly if no value brings up a placeholder of a later name, on its own or
with the text beside it. The scan itself knows no order of the names. -/
theorem fill_eq_scan_iff (h : Distinct vars) (arg : String) :
    ((∀ before, before <+: vars → fill before arg = scan before arg) ↔
      ∀ before v, before ++ [v] <+: vars →
        v.2 = placeholder v.1 ∨ slots v.1 (scan before arg) = slots v.1 arg) ∧
    ∀ vars', vars'.Perm vars → scan vars' arg = scan vars arg :=
  ⟨h.fill_prefixes_iff arg, fun _ hperm => congrArg String.ofList (h.scanFrom_perm hperm _)⟩

/-- Paths without braces are filled in as the scan has it, and in the other order too. -/
theorem fill_eq_scan_iff_paths :
    fill [("basedir", "/p"), ("file", "/p/a.glsl")] "-I\x7bbasedir\x7d:\x7bfile\x7d" =
        scan [("basedir", "/p"), ("file", "/p/a.glsl")] "-I\x7bbasedir\x7d:\x7bfile\x7d" ∧
      scan [("file", "/p/a.glsl"), ("basedir", "/p")] "-I\x7bbasedir\x7d:\x7bfile\x7d" =
        scan [("basedir", "/p"), ("file", "/p/a.glsl")] "-I\x7bbasedir\x7d:\x7bfile\x7d" := by
  have hdistinct : Distinct [("basedir", "/p"), ("file", "/p/a.glsl")] := ⟨by decide, by decide⟩
  obtain ⟨hiff, hperm⟩ := fill_eq_scan_iff hdistinct "-I\x7bbasedir\x7d:\x7bfile\x7d"
  refine ⟨hiff.2 ?_ _ List.prefix_rfl, hperm _ (.swap _ _ _)⟩
  intro before v hpre
  match before with
  | [] =>
    obtain ⟨rfl, -⟩ := List.cons_prefix_cons.1 hpre
    exact .inr (by decide +kernel)
  | [_] =>
    obtain ⟨rfl, hrest⟩ := List.cons_prefix_cons.1 hpre
    obtain ⟨rfl, -⟩ := List.cons_prefix_cons.1 hrest
    exact .inr (by decide +kernel)
  | _ :: _ :: before => exact absurd hpre.length_le (by simp)

/-- A directory with `{file}` in its name is changed, unless `file` comes before `basedir`. -/
theorem fill_reads_value :
    Distinct [("basedir", "/p/\x7bfile\x7d"), ("file", "a.glsl")] ∧
      fill [("basedir", "/p/\x7bfile\x7d"), ("file", "a.glsl")] "\x7bbasedir\x7d" = "/p/a.glsl" ∧
      scan [("basedir", "/p/\x7bfile\x7d"), ("file", "a.glsl")] "\x7bbasedir\x7d" =
        "/p/\x7bfile\x7d" ∧
      fill [("file", "a.glsl"), ("basedir", "/p/\x7bfile\x7d")] "\x7bbasedir\x7d" =
        "/p/\x7bfile\x7d" :=
  ⟨⟨by decide, by decide⟩, by decide +kernel, by decide +kernel, by decide +kernel⟩

/-! ## Braces that only make placeholders -/

/-- Every opening brace of the text opens a placeholder. -/
inductive WellFormed : List Char → Prop
  | nil : WellFormed []
  | copied {c : Char} {s : List Char} : c ≠ '\x7b' → WellFormed s → WellFormed (c :: s)
  | slot {name : String} {s : List Char} : Bare name → WellFormed s →
    WellFormed ((placeholder name).toList ++ s)

/-- No placeholder starts in a text without an opening brace. -/
theorem placeholder_infix_of_append {name : String} (hs : '\x7b' ∉ s)
    (h : (placeholder name).toList <:+: s ++ t) : (placeholder name).toList <:+: t := by
  induction s with
  | nil => exact h
  | cons c s ih =>
    obtain ⟨hc, hs⟩ := not_or.1 (mt List.mem_cons.2 hs)
    rw [List.cons_append, List.infix_cons_iff] at h
    rcases h with hpre | hin
    · rw [placeholder_toList, List.cons_prefix_cons] at hpre
      exact absurd hpre.1 hc
    · exact ih hs hin

/-- A value without opening braces does not count, and a placeholder of another name neither. -/
theorem Bare.slots_copied {name : String} (hname : Bare name) (hs : '\x7b' ∉ s) (t : List Char) :
    occurrences (placeholder name).toList (s ++ t) = occurrences (placeholder name).toList t :=
  occurrences_append hname.leadsOnce (fun _ => placeholder_infix_of_append hs) t

theorem Bare.slots_other {name other : String} (hname : Bare name) (hother : Bare other)
    (hne : name ≠ other) (t : List Char) :
    occurrences (placeholder name).toList ((placeholder other).toList ++ t) =
      occurrences (placeholder name).toList t := by
  refine occurrences_append hname.leadsOnce (fun q hin => ?_) t
  rw [placeholder_toList other, List.cons_append, List.infix_cons_iff] at hin
  rcases hin with ⟨after, hafter⟩ | hin
  · rw [← List.cons_append, ← placeholder_toList] at hafter
    exact absurd (placeholder_append_inj hname hother hafter).1 hne
  · exact placeholder_infix_of_append hother.notMem_tail hin

/-- In a well-formed text the placeholders of an unknown name stay, and no new one comes up. -/
theorem Distinct.slots_scanFrom (h : Distinct vars) (hvalues : ∀ v ∈ vars, '\x7b' ∉ v.2.toList)
    {name : String} (hname : Bare name) (hnot : name ∉ vars.map Prod.fst) (hs : WellFormed s) :
    occurrences (placeholder name).toList (scanFrom vars s) =
      occurrences (placeholder name).toList s := by
  induction hs with
  | nil => rw [scanFrom]
  | @copied c s hc hs ih =>
    have hcopied : '\x7b' ∉ [c] := fun hmem => hc (List.mem_singleton.1 hmem).symm
    rw [← List.singleton_append, scanFrom_copied hcopied, hname.slots_copied hcopied,
      hname.slots_copied hcopied, ih]
  | @slot other s hother hs ih =>
    by_cases hknown : other ∈ vars.map Prod.fst
    · obtain ⟨⟨_, value⟩, hv, rfl⟩ := List.mem_map.1 hknown
      have hne : name ≠ _ := fun heq => hnot (heq ▸ hknown)
      rw [h.scanFrom_known hv, hname.slots_copied (hvalues _ hv), hname.slots_other hother hne, ih]
    · rw [h.scanFrom_unknown hother hknown]
      by_cases heq : name = other
      · subst heq
        rw [occurrences_self_append hname.leadsOnce, occurrences_self_append hname.leadsOnce, ih]
      · rw [hname.slots_other hother heq, hname.slots_other hother heq, ih]

/-- **Placeholders in a well-formed argument** are filled in as the scan has it, in any order of the
names, if the values have no opening braces. -/
theorem fill_of_wellFormed {vars' : Keyed String} (h : Distinct vars)
    (hvalues : ∀ v ∈ vars, '\x7b' ∉ v.2.toList) {arg : String} (harg : WellFormed arg.toList)
    (hperm : vars'.Perm vars) : fill vars' arg = scan vars arg := by
  have h' := h.of_perm hperm
  rw [scan, ← h.scanFrom_perm hperm, ← scan]
  refine (h'.fill_prefixes_iff arg).2 (fun before v hpre => .inr ?_) vars' List.prefix_rfl
  have hconcat := h'.of_prefix hpre
  have hbefore := hconcat.of_prefix (List.prefix_append before [v])
  rw [slots, scan, String.toList_ofList]
  refine hbefore.slots_scanFrom (fun w hw => hvalues w (hperm.mem_iff.1 ?_))
    (hconcat.bare v (by simp)) hconcat.notMem harg
  exact hpre.subset (List.mem_append_left [v] hw)

end ShaderModules.ExternalCommand
