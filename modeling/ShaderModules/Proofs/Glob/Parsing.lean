import ShaderModules.Glob.Pattern

/-!
# Patterns that start with plain text

Text without wildcards is read as literal characters (`parse_plain`). In front of a slash it changes
nothing about how the rest of a pattern is read (`parse_append`). Two drafts are compared that
differ in the tokens in front of that slash (`Draft.Over`). They stay apart in this way with every
character, because nothing that is read later reaches behind the slash: a tree token takes its
place at most.

* `wildcards`: the characters that are not plain.
* `Token.IsSlash`: the tokens that a slash may become.
-/

namespace ShaderModules.Glob

/-- The characters that mean something in a pattern, outside of groups. -/
def wildcards : List Char := ['?', '*', '[', '\x7b', '\x7d', '\\']

theorem plain_of_all {l : List Char} (h : (l.all fun c => !wildcards.contains c) = true) :
    ∀ c ∈ l, c ∉ wildcards := by
  simpa using h

/-- The tokens of plain text. -/
def literals (l : List Char) : List Token := l.map .literal

/-- Whether a token is a slash or what a slash becomes when a tree takes it in. -/
inductive Token.IsSlash : Token → Prop where
  | literal : IsSlash (.literal '/')
  | innerTree : IsSlash .innerTree
  | trailingTree : IsSlash .trailingTree

/-- Whether the first of some tokens, which come in reverse, is a slash. -/
def Grounded (tokens : List Token) : Prop := ∃ later t, tokens = later ++ [t] ∧ t.IsSlash

theorem Grounded.cons {tokens : List Token} (h : Grounded tokens) (t : Token) :
    Grounded (t :: tokens) := by
  obtain ⟨later, s, rfl, hs⟩ := h
  exact ⟨t :: later, s, rfl, hs⟩

/-! ## Drafts with more tokens in front -/

namespace Draft

/-- Open groups of which the outermost has the tokens `base` more in front of it. -/
inductive GroupsOver (base : List Token) :
    List (List (List Token) × List Token) → List (List (List Token) × List Token) → Prop where
  | outermost {branches : List (List Token)} {before : List Token} : Grounded before →
    GroupsOver base [(branches, before)] [(branches, before ++ base)]
  | inner {branches : List (List Token)} {before : List Token}
    {outer outer' : List (List (List Token) × List Token)} : GroupsOver base outer outer' →
    GroupsOver base ((branches, before) :: outer) ((branches, before) :: outer')

/-- A draft that starts with a slash, and the same draft with the tokens `base` in front. -/
inductive Over (base : List Token) : Draft → Draft → Prop where
  | outside {tokens : List Token} : Grounded tokens →
    Over base ⟨tokens, []⟩ ⟨tokens ++ base, []⟩
  | inside {tokens : List Token} {groups groups' : List (List (List Token) × List Token)} :
    GroupsOver base groups groups' → Over base ⟨tokens, groups⟩ ⟨tokens, groups'⟩

variable {base : List Token} {d d' : Draft}

theorem GroupsOver.isEmpty {groups groups' : List (List (List Token) × List Token)}
    (h : GroupsOver base groups groups') : groups.isEmpty = false ∧ groups'.isEmpty = false := by
  cases h <;> exact ⟨rfl, rfl⟩

theorem Over.groups_isEmpty (h : Over base d d') : d'.groups.isEmpty = d.groups.isEmpty := by
  cases h with
  | outside _ => rfl
  | inside hg => exact hg.isEmpty.2.trans hg.isEmpty.1.symm

theorem Over.tokens_isEmpty (h : Over base d d') : d'.tokens.isEmpty = d.tokens.isEmpty := by
  cases h with
  | outside ht =>
    obtain ⟨later, s, rfl, -⟩ := ht
    cases later <;> rfl
  | inside _ => rfl

theorem Over.push (h : Over base d d') (t : Token) : Over base (d.push t) (d'.push t) := by
  cases h with
  | outside ht => exact .outside (ht.cons t)
  | inside hg => exact .inside hg

theorem Over.openGroup (h : Over base d d') : Over base d.openGroup d'.openGroup := by
  cases h with
  | outside ht => exact .inside (.outermost ht)
  | inside hg => exact .inside (.inner hg)

theorem Over.comma (h : Over base d d') : Over base d.comma d'.comma := by
  cases h with
  | outside ht => exact .outside (ht.cons _)
  | inside hg =>
    cases hg with
    | outermost ht => exact .inside (.outermost ht)
    | inner hg => exact .inside (.inner hg)

/-- Two results: drafts of which one has more in front, or the same fault. -/
inductive SameOver (base : List Token) : Except Fault Draft → Except Fault Draft → Prop where
  | ok {d d' : Draft} : Over base d d' → SameOver base (.ok d) (.ok d')
  | error (f : Fault) : SameOver base (.error f) (.error f)

theorem Over.closeGroup (h : Over base d d') : SameOver base d.closeGroup d'.closeGroup := by
  cases h with
  | outside _ => exact .error _
  | inside hg =>
    cases hg with
    | outermost ht => exact .ok (.outside (ht.cons _))
    | inner hg => exact .ok (.inside hg)

theorem Over.replaceLast (h : Over base d d') {t : Token} (ht : t.IsSlash) :
    Over base (d.replaceLast t) (d'.replaceLast t) := by
  cases h with
  | outside hg =>
    obtain ⟨later, s, rfl, hs⟩ := hg
    cases later with
    | nil =>
      -- the slash at the start is the last token: it is replaced, or is a tree already
      cases hs with
      | literal => exact .outside ⟨[], t, rfl, ht⟩
      | innerTree => exact .outside ⟨[], t, rfl, ht⟩
      | trailingTree => exact .outside ⟨[], _, rfl, .trailingTree⟩
    | cons last later =>
      have hkept : Grounded (last :: (later ++ [s])) := ⟨last :: later, s, rfl, hs⟩
      have hreplaced : Grounded (t :: (later ++ [s])) := ⟨t :: later, s, rfl, hs⟩
      cases last <;> first | exact .outside hkept | exact .outside hreplaced
  | @inside tokens groups groups' hg =>
    unfold Draft.replaceLast
    dsimp only
    split <;> exact .inside hg

theorem Over.pushTree (h : Over base d d') (previous next : Option Char) :
    Over base (d.pushTree previous next).1 (d'.pushTree previous next).1 ∧
      (d.pushTree previous next).2 = (d'.pushTree previous next).2 := by
  have hstars := (h.push .many).push .many
  unfold Draft.pushTree
  simp only [h.tokens_isEmpty, h.groups_isEmpty]
  split
  · cases next with
    | none => exact ⟨h.push _, rfl⟩
    | some c =>
      dsimp only
      split
      · exact ⟨h.push _, rfl⟩
      · exact ⟨hstars, rfl⟩
  · split
    · exact ⟨hstars, rfl⟩
    · cases next with
      | none => exact ⟨h.replaceLast .trailingTree, rfl⟩
      | some c =>
        dsimp only
        split
        · exact ⟨h.replaceLast .trailingTree, rfl⟩
        · split
          · exact ⟨h.replaceLast .innerTree, rfl⟩
          · exact ⟨hstars, rfl⟩

end Draft

/-! ## Steps of reading -/

section Steps

variable (previous : Option Char) (d : Draft) (rest : List Char)

theorem parseFrom_nil : parseFrom previous d [] = .ok d := by rw [parseFrom.eq_def]

theorem parseFrom_any :
    parseFrom previous d ('?' :: rest) = parseFrom (some '?') (d.push .any) rest := by
  rw [parseFrom.eq_def]
  rfl

theorem parseFrom_many (h : rest.head? ≠ some '*') :
    parseFrom previous d ('*' :: rest) = parseFrom (some '*') (d.push .many) rest := by
  rw [parseFrom.eq_def]
  cases rest with
  | nil => rfl
  | cons c rest =>
    have hc : c ≠ '*' := fun he => h (congrArg some he)
    simp [hc]

theorem parseFrom_tree :
    parseFrom previous d ('*' :: '*' :: rest) =
      if (d.pushTree previous rest.head?).2 then
        parseFrom (some '/') (d.pushTree previous rest.head?).1 (rest.drop 1)
      else parseFrom (some '*') (d.pushTree previous rest.head?).1 rest := by
  rw [parseFrom.eq_def]
  rfl

theorem parseFrom_class :
    parseFrom previous d ('[' :: rest) =
      match parseClass rest with
      | .ok (t, rest) => parseFrom (some ']') (d.push t) rest
      | .error f => .error f := by
  rw [parseFrom.eq_def]
  simp only [Char.reduceEq, if_false, if_true]
  split <;> rename_i h <;> rw [h]

theorem parseFrom_openGroup :
    parseFrom previous d ('\x7b' :: rest) = parseFrom (some '\x7b') d.openGroup rest := by
  rw [parseFrom.eq_def]
  rfl

theorem parseFrom_closeGroup :
    parseFrom previous d ('\x7d' :: rest) =
      match d.closeGroup with
      | .ok d => parseFrom (some '\x7d') d rest
      | .error f => .error f := by
  rw [parseFrom.eq_def]
  rfl

theorem parseFrom_comma :
    parseFrom previous d (',' :: rest) = parseFrom (some ',') d.comma rest := by
  rw [parseFrom.eq_def]
  rfl

theorem parseFrom_danglingEscape :
    parseFrom previous d ['\\'] = .error .danglingEscape := by
  rw [parseFrom.eq_def]
  rfl

theorem parseFrom_escape (c : Char) :
    parseFrom previous d ('\\' :: c :: rest) =
      parseFrom (some c) (d.push (.literal c)) rest := by
  rw [parseFrom.eq_def]
  rfl

/-- A character that means nothing of its own is taken literally. -/
theorem parseFrom_literal {c : Char} (hc : c ∉ wildcards) (hcomma : c ≠ ',') :
    parseFrom previous d (c :: rest) = parseFrom (some c) (d.push (.literal c)) rest := by
  simp only [wildcards, List.mem_cons, List.not_mem_nil, or_false, not_or] at hc
  obtain ⟨h₁, h₂, h₃, h₄, h₅, h₆⟩ := hc
  rw [parseFrom.eq_def]
  simp [h₁, h₂, h₃, h₄, h₅, h₆, hcomma]

end Steps

open Draft

/-- Reading goes on in the same way whatever stands in front of the slash. -/
theorem parseFrom_over {base : List Token} {d d' : Draft} (h : Over base d d')
    (previous : Option Char) (s : List Char) :
    SameOver base (parseFrom previous d s) (parseFrom previous d' s) := by
  fun_induction parseFrom previous d s generalizing d' with
  | case1 =>
    rw [parseFrom_nil]
    exact .ok h
  | case2 previous d rest ih =>
    rw [parseFrom_any]
    exact ih (h.push _)
  | case3 previous d _ ih =>
    rw [parseFrom_many _ _ [] (by simp)]
    exact ih (h.push _)
  | case4 previous d rest next _ htree ih =>
    obtain ⟨hover, htakes⟩ := h.pushTree previous rest.head?
    rw [htree] at hover htakes
    rw [parseFrom_tree, ← htakes]
    exact ih hover
  | case5 previous d rest next takesSlash htree hnot _ ih =>
    obtain ⟨hover, htakes⟩ := h.pushTree previous rest.head?
    rw [htree] at hover htakes
    rw [parseFrom_tree, ← htakes, if_neg hnot]
    exact ih hover
  | case6 previous d c rest hc _ ih =>
    rw [parseFrom_many previous d' (c :: rest) (by simpa using hc)]
    exact ih (h.push _)
  | case7 previous d rest t after hclass _ _ ih =>
    rw [parseFrom_class, hclass]
    exact ih (h.push _)
  | case8 previous d rest f hclass _ _ =>
    rw [parseFrom_class, hclass]
    exact .error f
  | case9 previous d rest _ _ _ ih =>
    rw [parseFrom_openGroup]
    exact ih h.openGroup
  | case10 previous d rest next hclose _ _ _ _ ih =>
    have hsame := h.closeGroup
    rw [hclose] at hsame
    rw [parseFrom_closeGroup]
    generalize d'.closeGroup = closed at hsame
    cases hsame with
    | ok hover => exact ih hover
  | case11 previous d rest f hclose _ _ _ _ =>
    have hsame := h.closeGroup
    rw [hclose] at hsame
    rw [parseFrom_closeGroup]
    generalize d'.closeGroup = closed at hsame
    cases hsame with
    | error => exact .error f
  | case12 previous d rest _ _ _ _ _ ih =>
    rw [parseFrom_comma]
    exact ih h.comma
  | case13 previous d =>
    rw [parseFrom_danglingEscape]
    exact .error _
  | case14 previous d c rest _ _ _ _ _ _ ih =>
    rw [parseFrom_escape]
    exact ih (h.push _)
  | case15 previous d c rest h₁ h₂ h₃ h₄ h₅ h₆ h₇ ih =>
    rw [parseFrom_literal _ _ _ (by simp [wildcards, h₁, h₂, h₃, h₄, h₅, h₇]) h₆]
    exact ih (h.push _)

/-! ## Plain text in front -/

/-- Plain text is taken literally. -/
theorem parseFrom_plain {l : List Char} (h : ∀ c ∈ l, c ∉ wildcards) (previous : Option Char)
    (tokens : List Token) (s : List Char) :
    parseFrom previous ⟨tokens, []⟩ (l ++ s) =
      parseFrom (l.getLast?.or previous) ⟨(literals l).reverse ++ tokens, []⟩ s := by
  induction l generalizing previous tokens with
  | nil => rfl
  | cons c rest ih =>
    have hrest := ih (fun d hd => h d (List.mem_cons_of_mem _ hd)) (some c) (.literal c :: tokens)
    have hstep : parseFrom previous ⟨tokens, []⟩ (c :: (rest ++ s)) =
        parseFrom (some c) ⟨.literal c :: tokens, []⟩ (rest ++ s) := by
      by_cases hcomma : c = ','
      · subst hcomma
        exact parseFrom_comma previous ⟨tokens, []⟩ _
      · exact parseFrom_literal previous ⟨tokens, []⟩ _ (h c List.mem_cons_self) hcomma
    have hlast : (c :: rest).getLast?.or previous = rest.getLast?.or (some c) := by
      rw [List.getLast?_cons]
      cases rest.getLast? <;> rfl
    rw [List.cons_append, hstep, hrest, hlast]
    simp [literals]

/-- Plain text and a slash are taken literally. -/
theorem parseFrom_plain_slash {l : List Char} (h : ∀ c ∈ l, c ∉ wildcards) (s : List Char) :
    parseFrom none {} (l ++ '/' :: s) =
      parseFrom (some '/') ⟨.literal '/' :: (literals l).reverse, []⟩ s := by
  have hslash : ∀ c ∈ l ++ ['/'], c ∉ wildcards := by
    intro c hc
    rcases List.mem_append.1 hc with hc | hc
    · exact h c hc
    · rw [List.mem_singleton.1 hc]
      decide
  have hplain := parseFrom_plain hslash none [] s
  rw [List.append_assoc] at hplain
  exact hplain.trans (by simp [literals])

/-- The tokens of a finished draft; a group must not stay open. -/
def finish : Except Fault Draft → Except Fault (List Token)
  | .error f => .error f
  | .ok d => if d.groups.isEmpty then .ok d.tokens.reverse else .error .unclosedGroup

theorem parse_ofList (s : List Char) : parse (String.ofList s) = finish (parseFrom none {} s) := by
  rw [parse, String.toList_ofList]
  rfl

theorem parse_slash (s : List Char) :
    parse (String.ofList ('/' :: s)) = finish (parseFrom (some '/') ⟨[.literal '/'], []⟩ s) := by
  rw [parse_ofList]
  exact congrArg finish (parseFrom_plain_slash (l := []) (by simp) s)

/-- Plain text is a pattern of literal characters. -/
theorem parse_plain {l : List Char} (h : ∀ c ∈ l, c ∉ wildcards) :
    parse (String.ofList l) = .ok (literals l) := by
  have hplain := parseFrom_plain h none [] []
  rw [List.append_nil, parseFrom_nil] at hplain
  rw [parse_ofList, show ({} : Draft) = ⟨[], []⟩ from rfl, hplain]
  simp [finish]

theorem Draft.SameOver.finish_eq {base : List Token} {x x' : Except Fault Draft}
    (h : SameOver base x x') : finish x' = (finish x).map (base.reverse ++ ·) := by
  cases h with
  | error f => rfl
  | ok hover =>
    cases hover with
    | outside ht => simp [finish, Except.map]
    | inside hg => simp [finish, Except.map, hg.isEmpty]

/-- **Plain text in front of a slash stays in front of the tokens**, and what follows is read as
without it. -/
theorem parse_append {l : List Char} (h : ∀ c ∈ l, c ∉ wildcards) (s : List Char) :
    parse (String.ofList (l ++ '/' :: s)) =
      (parse (String.ofList ('/' :: s))).map (literals l ++ ·) := by
  have hover : Over (literals l).reverse ⟨[.literal '/'], []⟩
      ⟨.literal '/' :: (literals l).reverse, []⟩ :=
    .outside ⟨[], _, rfl, .literal⟩
  have hsame := (parseFrom_over hover (some '/') s).finish_eq
  rw [parse_ofList, parse_slash, parseFrom_plain_slash h, hsame, List.reverse_reverse]

theorem Draft.SameOver.exists_slash {base tokens : List Token} {x x' : Except Fault Draft}
    (h : SameOver base x x') (hx : finish x = .ok tokens) :
    ∃ t rest, tokens = t :: rest ∧ t.IsSlash := by
  cases h with
  | error f => cases hx
  | ok hover =>
    cases hover with
    | outside ht =>
      obtain ⟨later, t, rfl, hslash⟩ := ht
      simp only [finish, List.isEmpty_nil, if_true, Except.ok.injEq] at hx
      exact ⟨t, later.reverse, by simp [← hx], hslash⟩
    | inside hg => simp [finish, hg.isEmpty] at hx

/-- The tokens of a pattern that starts with a slash start with a slash. -/
theorem exists_of_parse_slash {s : List Char} {tokens : List Token}
    (h : parse (String.ofList ('/' :: s)) = .ok tokens) :
    ∃ t rest, tokens = t :: rest ∧ t.IsSlash := by
  have hover : Over [] ⟨[.literal '/'], []⟩ ⟨[.literal '/'], []⟩ :=
    .outside ⟨[], _, rfl, .literal⟩
  rw [parse_slash] at h
  exact (parseFrom_over hover (some '/') s).exists_slash h

end ShaderModules.Glob
