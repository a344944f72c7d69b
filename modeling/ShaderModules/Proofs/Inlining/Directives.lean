import Mathlib.Data.List.TakeWhile
import Mathlib.Data.Set.Subsingleton
import ShaderModules.Proofs.Inlining.Lines

/-!
# The grammar of directives

A directive has blank characters, its words, blank characters, the target between delimiters, and
blank characters again (`Directive.Names`). A line with the words of a directive in front that goes
on in no other way than a directive can (`Directive.Opens`) is meant as one, so that it is malformed
if it names no target; every other line is plain (`ofText_iff_grammar`). Since the outer blanks and
the outer delimiters are taken off, a target may have delimiters and blanks of its own.

* `Text.Blank`: blank text, which trimming takes off (`Text.trimmed_eq_iff`).
* `Directive.Head`: the words of a directive (`afterHead?_eq_some_iff`).
* `Directive.Encloses`: the delimiters of a target (`targetOf?_eq_some_iff`).
-/

namespace ShaderModules

namespace Text

variable {c : Char} {s t lead tail : List Char}

/-! ## Trimming -/

/-- A text of blank characters. -/
def Blank (s : List Char) : Prop := ∀ c ∈ s, isBlank c = true

theorem trimStart_blank_append (h : Blank lead) (s : List Char) :
    trimStart (lead ++ s) = trimStart s :=
  List.dropWhile_append_of_pos h

theorem exists_blank_append_trimStart (s : List Char) :
    ∃ lead, Blank lead ∧ s = lead ++ trimStart s :=
  ⟨s.takeWhile isBlank, fun _ hc => List.mem_takeWhile_imp hc,
    List.takeWhile_append_dropWhile.symm⟩

/-- What is left begins with a given character exactly if blank characters stand before it. -/
theorem trimStart_eq_cons_iff (hc : isBlank c = false) :
    trimStart s = c :: t ↔ ∃ lead, Blank lead ∧ s = lead ++ c :: t := by
  constructor
  · intro h
    obtain ⟨lead, hlead, hs⟩ := exists_blank_append_trimStart s
    exact ⟨lead, hlead, h ▸ hs⟩
  · rintro ⟨lead, hlead, rfl⟩
    rw [trimStart_blank_append hlead, trimStart_eq_self hc]

theorem trimEnd_eq (s : List Char) : trimEnd s = (trimStart s.reverse).reverse := rfl

/-- What is left ends with a given character exactly if blank characters stand behind it. -/
theorem trimEnd_eq_concat_iff (hc : isBlank c = false) :
    trimEnd s = t ++ [c] ↔ ∃ tail, Blank tail ∧ s = t ++ c :: tail := by
  rw [trimEnd_eq, List.reverse_eq_iff, List.reverse_append, List.reverse_singleton,
    List.singleton_append, trimStart_eq_cons_iff hc]
  constructor
  · rintro ⟨lead, hlead, hs⟩
    refine ⟨lead.reverse, fun c hc => hlead c (List.mem_reverse.1 hc), ?_⟩
    rw [List.reverse_eq_iff] at hs
    simpa using hs
  · rintro ⟨tail, htail, rfl⟩
    exact ⟨tail.reverse, fun c hc => htail c (List.mem_reverse.1 hc), by simp⟩

/-- **Trimming leaves a text** that begins and ends with characters that are not blank exactly if
blank characters stand around it. -/
theorem trimmed_eq_iff {o : Char} (ho : isBlank o = false) (hc : isBlank c = false) :
    trimmed s = o :: (t ++ [c]) ↔
      ∃ lead tail, Blank lead ∧ Blank tail ∧ s = lead ++ o :: (t ++ c :: tail) := by
  rw [trimmed, ← List.cons_append, trimEnd_eq_concat_iff hc]
  constructor
  · rintro ⟨tail, htail, hs⟩
    obtain ⟨lead, hlead, rfl⟩ := (trimStart_eq_cons_iff ho).1 hs
    exact ⟨lead, tail, hlead, htail, rfl⟩
  · rintro ⟨lead, tail, hlead, htail, rfl⟩
    exact ⟨tail, htail, (trimStart_eq_cons_iff ho).2 ⟨lead, hlead, rfl⟩⟩

end Text

namespace Directive

open Text

variable {line s rest t : List Char} {o c : Char}

/-! ## The words of a directive -/

/-- The words of a directive. -/
inductive Head : List Char → Prop where
  | short : Head "#include".toList
  | pragma {gap : List Char} : Blank gap → Head ("#pragma".toList ++ (gap ++ "include".toList))

theorem Head.exists_cons {head : List Char} (h : Head head) : ∃ more, head = '#' :: more := by
  cases h with
  | short => exact ⟨"include".toList, rfl⟩
  | pragma => exact ⟨"pragma".toList ++ _, rfl⟩

/-- Blank characters in front of the second word are taken off. -/
theorem stripPrefix?_trimStart_eq_some_iff :
    stripPrefix? "include".toList (trimStart s) = some rest ↔
      ∃ gap, Blank gap ∧ s = gap ++ ("include".toList ++ rest) := by
  have hinclude : "include".toList = 'i' :: "nclude".toList := by decide
  rw [stripPrefix?_eq_some_iff, hinclude, List.cons_append, trimStart_eq_cons_iff (by decide)]

/-- What follows the words of a directive. -/
theorem afterHead?_eq_some_iff :
    afterHead? s = some rest ↔ ∃ head, Head head ∧ s = head ++ rest := by
  constructor
  · intro h
    unfold afterHead? at h
    split at h
    · rename_i hshort
      cases h
      exact ⟨_, .short, stripPrefix?_eq_some_iff.1 hshort⟩
    · split at h
      · rename_i r hpragma
        obtain ⟨gap, hgap, rfl⟩ := stripPrefix?_trimStart_eq_some_iff.1 h
        refine ⟨_, .pragma hgap, ?_⟩
        rw [stripPrefix?_eq_some_iff.1 hpragma, List.append_assoc, List.append_assoc]
      · cases h
  · rintro ⟨head, hhead, rfl⟩
    unfold afterHead?
    cases hhead with
    | short => rw [stripPrefix?_eq_some_iff.2 rfl]
    | @pragma gap hgap =>
      have hother : stripPrefix? "#include".toList
          ("#pragma".toList ++ (gap ++ "include".toList) ++ rest) = none := rfl
      rw [hother, List.append_assoc, stripPrefix?_eq_some_iff.2 rfl, List.append_assoc]
      exact stripPrefix?_trimStart_eq_some_iff.2 ⟨gap, hgap, rfl⟩

/-- A line begins with blank characters and the words of a directive, and has a rest. -/
def Begins (line rest : List Char) : Prop :=
  ∃ lead head, Blank lead ∧ Head head ∧ line = lead ++ (head ++ rest)

theorem afterHead?_trimStart_eq_some_iff :
    afterHead? (trimStart line) = some rest ↔ Begins line rest := by
  rw [afterHead?_eq_some_iff]
  constructor
  · rintro ⟨head, hhead, hline⟩
    obtain ⟨lead, hlead, htext⟩ := exists_blank_append_trimStart line
    exact ⟨lead, head, hlead, hhead, hline ▸ htext⟩
  · rintro ⟨lead, head, hlead, hhead, rfl⟩
    obtain ⟨more, rfl⟩ := hhead.exists_cons
    exact ⟨_, hhead, (trimStart_eq_cons_iff rfl).2 ⟨lead, hlead, rfl⟩⟩

/-- A rest with which the words of a directive end. -/
def EndsHead (rest : List Char) : Prop :=
  rest = [] ∨ ∃ c more, rest = c :: more ∧ (isBlank c = true ∨ c = '"' ∨ c = '<')

theorem endsHead_iff : endsHead rest = true ↔ EndsHead rest := by
  unfold EndsHead
  cases rest with
  | nil => simp [endsHead]
  | cons c more => simp [endsHead, or_assoc]

/-! ## Targets -/

/-- The delimiters of a target. -/
inductive Encloses : Char → Char → Prop where
  | quotes : Encloses '"' '"'
  | brackets : Encloses '<' '>'

theorem Encloses.isBlank_left (h : Encloses o c) : isBlank o = false := by cases h <;> rfl

theorem Encloses.isBlank_right (h : Encloses o c) : isBlank c = false := by cases h <;> rfl

theorem between?_eq_some_iff : between? o c s = some t ↔ s = o :: (t ++ [c]) := by
  cases s with
  | nil => simp [between?]
  | cons a s =>
    rw [between?]
    by_cases ha : a = o
    · rw [if_pos ha, stripSuffix?_eq_some_iff, ha, List.cons.injEq, and_iff_right rfl]
    · simp [ha]

/-- A target between its delimiters, with blank characters around them. -/
def Holds (rest t : List Char) : Prop :=
  ∃ lead tail o c, Blank lead ∧ Blank tail ∧ Encloses o c ∧ t ≠ [] ∧
    rest = lead ++ o :: (t ++ c :: tail)

/-- The target stands between the first two delimiters that enclose the trimmed rest, and these are
the only ones. -/
theorem targetOf?_eq_some_iff_trimmed : targetOf? rest = some t ↔
    t ≠ [] ∧ ∃ o c, Encloses o c ∧ trimmed rest = o :: (t ++ [c]) := by
  have henclosed : (∃ o c, Encloses o c ∧ trimmed rest = o :: (t ++ [c])) ↔
      between? '"' '"' (trimmed rest) = some t ∨ between? '<' '>' (trimmed rest) = some t := by
    rw [between?_eq_some_iff, between?_eq_some_iff]
    constructor
    · rintro ⟨o, c, ⟨⟩ | ⟨⟩, htext⟩
      · exact .inl htext
      · exact .inr htext
    · rintro (htext | htext)
      · exact ⟨_, _, .quotes, htext⟩
      · exact ⟨_, _, .brackets, htext⟩
  rw [henclosed]
  unfold targetOf?
  dsimp only
  split
  · rename_i quoted hquotes
    -- a text in quotation marks does not begin with a bracket
    have hbrackets : between? '<' '>' (trimmed rest) ≠ some t := by
      rw [ne_eq, between?_eq_some_iff, between?_eq_some_iff.1 hquotes, List.cons.injEq, not_and]
      exact fun h => absurd h (by decide)
    rw [hquotes, or_iff_left hbrackets, Option.filter_eq_some_iff, and_comm]
    simp
  · rename_i hquotes
    rw [hquotes, or_iff_right nofun, Option.filter_eq_some_iff, and_comm]
    simp

theorem targetOf?_eq_some_iff : targetOf? rest = some t ↔ Holds rest t := by
  rw [targetOf?_eq_some_iff_trimmed]
  constructor
  · rintro ⟨hne, o, c, hdelimiters, htext⟩
    obtain ⟨lead, tail, hlead, htail, rfl⟩ :=
      (trimmed_eq_iff hdelimiters.isBlank_left hdelimiters.isBlank_right).1 htext
    exact ⟨lead, tail, o, c, hlead, htail, hdelimiters, hne, rfl⟩
  · rintro ⟨lead, tail, o, c, hlead, htail, hdelimiters, hne, rfl⟩
    refine ⟨hne, o, c, hdelimiters, ?_⟩
    exact (trimmed_eq_iff hdelimiters.isBlank_left hdelimiters.isBlank_right).2
      ⟨lead, tail, hlead, htail, rfl⟩

theorem Holds.endsHead (h : Holds rest t) : EndsHead rest := by
  obtain ⟨lead, tail, o, c, hlead, -, hdelimiters, -, rfl⟩ := h
  refine .inr ?_
  cases lead with
  | nil =>
    refine ⟨o, _, rfl, .inr ?_⟩
    cases hdelimiters
    · exact .inl rfl
    · exact .inr rfl
  | cons b lead => exact ⟨b, _, rfl, .inl (hlead b List.mem_cons_self)⟩

/-! ## Lines -/

/-- A directive with its target. -/
def Names (line t : List Char) : Prop :=
  ∃ lead head gap tail o c, Blank lead ∧ Head head ∧ Blank gap ∧ Encloses o c ∧ t ≠ [] ∧
    Blank tail ∧ line = lead ++ head ++ gap ++ o :: t ++ c :: tail

/-- A line that begins like a directive, and goes on in no other way. -/
def Opens (line : List Char) : Prop :=
  ∃ lead head rest, Blank lead ∧ Head head ∧ EndsHead rest ∧ line = lead ++ head ++ rest

theorem names_iff : Names line t ↔ ∃ rest, Begins line rest ∧ Holds rest t := by
  constructor
  · rintro ⟨lead, head, gap, tail, o, c, hlead, hhead, hgap, hdelimiters, hne, htail, rfl⟩
    exact ⟨_, ⟨lead, head, hlead, hhead, by simp only [List.append_assoc, List.cons_append]⟩,
      gap, tail, o, c, hgap, htail, hdelimiters, hne, rfl⟩
  · rintro ⟨_, ⟨lead, head, hlead, hhead, rfl⟩, gap, tail, o, c, hgap, htail, hdelimiters, hne, rfl⟩
    exact ⟨lead, head, gap, tail, o, c, hlead, hhead, hgap, hdelimiters, hne, htail, by simp⟩

theorem opens_iff : Opens line ↔ ∃ rest, Begins line rest ∧ EndsHead rest := by
  constructor
  · rintro ⟨lead, head, rest, hlead, hhead, hends, rfl⟩
    exact ⟨rest, ⟨lead, head, hlead, hhead, List.append_assoc ..⟩, hends⟩
  · rintro ⟨rest, ⟨lead, head, hlead, hhead, rfl⟩, hends⟩
    exact ⟨lead, head, rest, hlead, hhead, hends, (List.append_assoc ..).symm⟩

/-- A directive begins like one. -/
theorem Names.opens (h : Names line t) : Opens line := by
  obtain ⟨rest, hbegins, hholds⟩ := names_iff.1 h
  exact opens_iff.2 ⟨rest, hbegins, hholds.endsHead⟩

theorem ofText_of_names (h : Names line t) : Line.ofText line = .target (String.ofList t) := by
  obtain ⟨rest, hbegins, hholds⟩ := names_iff.1 h
  simp only [Line.ofText, afterHead?_trimStart_eq_some_iff.2 hbegins,
    endsHead_iff.2 hholds.endsHead, targetOf?_eq_some_iff.2 hholds, if_true]

theorem ofText_of_opens (h : Opens line) (hnames : ¬∃ t, Names line t) :
    Line.ofText line = .malformed := by
  obtain ⟨rest, hbegins, hends⟩ := opens_iff.1 h
  have hnone : targetOf? rest = none := by
    rw [Option.eq_none_iff_forall_ne_some]
    exact fun t ht => hnames ⟨t, names_iff.2 ⟨rest, hbegins, targetOf?_eq_some_iff.1 ht⟩⟩
  simp only [Line.ofText, afterHead?_trimStart_eq_some_iff.2 hbegins, endsHead_iff.2 hends, hnone,
    if_true]

theorem ofText_of_not_opens (h : ¬Opens line) : Line.ofText line = .plain := by
  rw [ofText_eq_plain_iff]
  intro rest hrest
  rw [← Bool.not_eq_true, endsHead_iff]
  exact fun hends => h (opens_iff.2 ⟨rest, afterHead?_trimStart_eq_some_iff.1 hrest, hends⟩)

/-- Every line is one of three: a directive with a target, a malformed one, or plain. -/
theorem ofText_cases (line : List Char) :
    (∃ t, Names line t ∧ Line.ofText line = .target (String.ofList t)) ∨
      (Opens line ∧ (¬∃ t, Names line t) ∧ Line.ofText line = .malformed) ∨
      (¬Opens line ∧ (¬∃ t, Names line t) ∧ Line.ofText line = .plain) := by
  by_cases hopens : Opens line
  · by_cases hnames : ∃ t, Names line t
    · obtain ⟨t, hnames⟩ := hnames
      exact .inl ⟨t, hnames, ofText_of_names hnames⟩
    · exact .inr (.inl ⟨hopens, hnames, ofText_of_opens hopens hnames⟩)
  · have hnames : ¬∃ t, Names line t := by
      rintro ⟨t, h⟩
      exact hopens h.opens
    exact .inr (.inr ⟨hopens, hnames, ofText_of_not_opens hopens⟩)

/-- **Directives are read by their grammar.** A line is read as a directive with a target exactly if
it is one, and it has no other target. It is malformed exactly if it begins like a directive and is
none, and plain in all other cases. -/
theorem ofText_iff_grammar (line : List Char) :
    (∀ t, Line.ofText line = .target (String.ofList t) ↔ Names line t) ∧
      {t | Names line t}.Subsingleton ∧
      (Line.ofText line = .malformed ↔ Opens line ∧ ¬∃ t, Names line t) ∧
      (Line.ofText line = .plain ↔ ¬Opens line ∧ ¬∃ t, Names line t) := by
  have hunique : ∀ {t t'}, Line.ofText line = .target (String.ofList t) →
      Line.ofText line = .target (String.ofList t') → t = t' := fun h h' =>
    String.ofList_injective (Line.target.inj (h.symm.trans h'))
  refine ⟨fun t => ⟨fun h => ?_, ofText_of_names⟩,
    fun t ht t' ht' => hunique (ofText_of_names ht) (ofText_of_names ht'),
    ⟨fun h => ?_, fun h => ofText_of_opens h.1 h.2⟩, ⟨fun h => ?_, fun h => ofText_of_not_opens h.1⟩⟩
  · rcases ofText_cases line with ⟨t', hnames, htext⟩ | ⟨-, -, htext⟩ | ⟨-, -, htext⟩
    · exact hunique h htext ▸ hnames
    · cases h.symm.trans htext
    · cases h.symm.trans htext
  · rcases ofText_cases line with ⟨t, -, htext⟩ | ⟨hopens, hnone, -⟩ | ⟨-, -, htext⟩
    · cases h.symm.trans htext
    · exact ⟨hopens, hnone⟩
    · cases h.symm.trans htext
  · rcases ofText_cases line with ⟨t, -, htext⟩ | ⟨-, -, htext⟩ | ⟨hopens, hnone, -⟩
    · cases h.symm.trans htext
    · cases h.symm.trans htext
    · exact ⟨hopens, hnone⟩

/-- The outer delimiters count: a target may have others in it, and blanks. -/
example : Line.ofText "\t#pragma  include<a\" b>.glsl> ".toList = .target "a\" b>.glsl" := by decide

end Directive

end ShaderModules
