import Mathlib.Algebra.GroupWithZero.Nat
import Mathlib.Data.List.Forall2
import Mathlib.Tactic.ByContra
import ShaderModules.Text.Search

/-!
# The pieces between the occurrences of a text

Splitting a text finds the occurrences of a separator from left to right. Nothing is lost by it, and
no piece has another occurrence in it (`isSplit_splitOn`). If the first character of the separator
stands nowhere else in it, no two occurrences overlap; then there is only one way to split
(`splitOn_eq`), and a text can be split part by part (`splitOn_append`).

* `IsSplit`: the pieces of a text, apart from how they are found.
* `LeadsOnce`: a separator whose first character stands nowhere else in it.
* `occurrences`: how often a text occurs in another.
* `replaceAll_intercalate_eq_iff`: when replacing a separator replaces nothing else.
-/

namespace ShaderModules.Text

/-! ## Splitting -/

/-- The pieces are what stands between occurrences of `sep` in `s`, and none has another one. -/
structure IsSplit (sep s : List Char) (pieces : List (List Char)) : Prop where
  ne_nil : pieces ≠ []
  joined : s = sep.intercalate pieces
  without : ∀ p ∈ pieces, ¬ sep <:+: p

variable {sep : List Char}

theorem stripPrefix?_eq_none_iff {p s : List Char} : stripPrefix? p s = none ↔ ¬ p <+: s := by
  rw [Option.eq_none_iff_forall_ne_some]
  refine ⟨fun h ⟨r, hr⟩ => h r (stripPrefix?_eq_some_iff.2 hr.symm), fun h r hr => h ?_⟩
  exact ⟨r, (stripPrefix?_eq_some_iff.1 hr).symm⟩

theorem splitFrom_ne_nil (sep piece s : List Char) : splitFrom sep piece s ≠ [] := by
  fun_induction splitFrom sep piece s <;> simp_all

theorem intercalate_splitFrom (sep piece s : List Char) :
    sep.intercalate (splitFrom sep piece s) = piece.reverse ++ s := by
  fun_induction splitFrom sep piece s with
  | case1 piece => simp
  | case2 piece c rest after h hs ih => simpa using ih
  | case3 piece c rest after h hs ih =>
    rw [List.intercalate_cons_of_ne_nil (splitFrom_ne_nil _ _ _), ih, stripPrefix?_eq_some_iff.1 h]
    simp
  | case4 piece c rest h ih => simpa using ih

/-- Nothing is lost. -/
theorem intercalate_splitOn (sep s : List Char) : sep.intercalate (splitOn sep s) = s :=
  intercalate_splitFrom sep [] s

theorem splitOn_ne_nil (sep s : List Char) : splitOn sep s ≠ [] := splitFrom_ne_nil sep [] s

/-- No occurrence of `sep` starts in the first `n` characters of `s`. -/
def NoneBefore (sep : List Char) (n : Nat) (s : List Char) : Prop :=
  ∀ a b, s = a ++ (sep ++ b) → n ≤ a.length

theorem NoneBefore.not_infix (hsep : sep ≠ []) {piece s : List Char}
    (h : NoneBefore sep piece.length (piece ++ s)) : ¬ sep <:+: piece := by
  rintro ⟨a, b, rfl⟩
  have hle := h a (b ++ s) (by simp)
  have hpos := List.length_pos_iff.2 hsep
  simp only [List.length_append] at hle
  omega

theorem NoneBefore.succ {piece rest : List Char} {c : Char}
    (h : NoneBefore sep piece.length (piece ++ c :: rest)) (hc : ¬ sep <+: c :: rest) :
    NoneBefore sep (piece ++ [c]).length ((piece ++ [c]) ++ rest) := by
  intro a b hab
  rw [List.append_assoc] at hab
  have hle := h a b hab
  rcases Nat.lt_or_eq_of_le hle with hlt | heq
  · rwa [List.length_append, List.length_singleton]
  · obtain ⟨-, hrest⟩ := List.append_inj hab heq
    exact absurd ⟨b, hrest.symm⟩ hc

theorem not_infix_of_mem_splitFrom (hsep : sep ≠ []) {piece s : List Char}
    (hpiece : NoneBefore sep piece.length (piece.reverse ++ s)) :
    ∀ p ∈ splitFrom sep piece s, ¬ sep <:+: p := by
  rw [← List.length_reverse] at hpiece
  fun_induction splitFrom sep piece s with
  | case1 piece =>
    rw [List.forall_mem_singleton]
    exact hpiece.not_infix hsep
  | case2 => exact absurd ‹_› hsep
  | case3 piece c rest after h hs ih =>
    rw [List.forall_mem_cons]
    exact ⟨hpiece.not_infix hsep, ih fun a b _ => Nat.zero_le _⟩
  | case4 piece c rest h ih =>
    have hnext := hpiece.succ (stripPrefix?_eq_none_iff.1 h)
    rw [← List.reverse_cons] at hnext
    exact ih hnext

/-- **Splitting** gives the pieces of a text. -/
theorem isSplit_splitOn (hsep : sep ≠ []) (s : List Char) : IsSplit sep s (splitOn sep s) :=
  ⟨splitOn_ne_nil sep s, (intercalate_splitOn sep s).symm,
    not_infix_of_mem_splitFrom hsep fun _ _ _ => Nat.zero_le _⟩

theorem not_infix_of_mem_splitOn (hsep : sep ≠ []) {s p : List Char} (h : p ∈ splitOn sep s) :
    ¬ sep <:+: p := (isSplit_splitOn hsep s).without p h

theorem splitOn_of_not_infix {s : List Char} (h : ¬ sep <:+: s) :
    splitOn sep s = [s] := by
  have hjoined := intercalate_splitOn sep s
  match hsplit : splitOn sep s with
  | [] => exact absurd hsplit (splitOn_ne_nil sep s)
  | [p] => rw [← hjoined, hsplit, List.intercalate_singleton]
  | p :: q :: more =>
    rw [hsplit, List.intercalate_cons_cons] at hjoined
    exact absurd ⟨p, _, hjoined⟩ h

/-! ## Occurrences that do not overlap -/

/-- What starts two texts put together ends in the first one or reaches into the second. -/
theorem prefix_append_cases {α : Type} {l s t : List α} (h : l <+: s ++ t) :
    l <+: s ∨ ∃ b, b ≠ [] ∧ l = s ++ b ∧ b <+: t := by
  obtain ⟨after, hafter⟩ := h
  rcases List.append_eq_append_iff.1 hafter with ⟨a, rfl, -⟩ | ⟨b, rfl, hb⟩
  · exact .inl (List.prefix_append l a)
  · by_cases hnil : b = []
    · subst hnil
      rw [List.append_nil]
      exact .inl List.prefix_rfl
    · exact .inr ⟨b, hnil, rfl, after, hb.symm⟩

/-- What stands in front of the first `a`, and behind it, can be told from the whole. -/
theorem append_cons_inj {α : Type} {a : α} {s t x y : List α} (hs : a ∉ s) (ht : a ∉ t)
    (h : s ++ a :: x = t ++ a :: y) : s = t ∧ x = y := by
  induction s generalizing t with
  | nil =>
    cases t with
    | nil => exact ⟨rfl, List.tail_eq_of_cons_eq h⟩
    | cons c t =>
      rw [List.nil_append, List.cons_append, List.cons.injEq] at h
      exact absurd (h.1 ▸ List.mem_cons_self) ht
  | cons d s ih =>
    cases t with
    | nil =>
      rw [List.nil_append, List.cons_append, List.cons.injEq] at h
      exact absurd (h.1 ▸ List.mem_cons_self) hs
    | cons c t =>
      rw [List.cons_append, List.cons_append, List.cons.injEq] at h
      obtain ⟨rfl, h⟩ := h
      obtain ⟨rfl, rfl⟩ := ih (fun hm => hs (List.mem_cons_of_mem _ hm))
        (fun hm => ht (List.mem_cons_of_mem _ hm)) h
      exact ⟨rfl, rfl⟩

/-- The first character of the text stands nowhere else in it. -/
def LeadsOnce (sep : List Char) : Prop := ∃ c rest, sep = c :: rest ∧ c ∉ rest

theorem leadsOnce_singleton (c : Char) : LeadsOnce [c] := ⟨c, [], rfl, List.not_mem_nil⟩

theorem LeadsOnce.ne_nil (h : LeadsOnce sep) : sep ≠ [] := by
  obtain ⟨c, rest, rfl, -⟩ := h
  exact List.cons_ne_nil c rest

/-- No occurrence reaches into another one. -/
theorem LeadsOnce.not_prefix (h : LeadsOnce sep) {a b : List Char} (ha : a ≠ []) (hb : b ≠ [])
    (hab : sep = a ++ b) (t : List Char) : ¬ b <+: sep ++ t := by
  obtain ⟨c, rest, rfl, hc⟩ := h
  obtain ⟨x, a, rfl⟩ := List.exists_cons_of_ne_nil ha
  obtain ⟨y, b, rfl⟩ := List.exists_cons_of_ne_nil hb
  rw [List.cons_append] at hab
  obtain ⟨rfl, rfl⟩ := List.cons.inj hab
  intro hpre
  rw [List.cons_append, List.cons_prefix_cons] at hpre
  exact hc (List.mem_append_right a (hpre.1 ▸ List.mem_cons_self))

/-- What stands in front of the first occurrence is the first piece. -/
theorem splitFrom_append (h : LeadsOnce sep) {p : List Char} (hp : ¬ sep <:+: p)
    (piece t : List Char) :
    splitFrom sep piece (p ++ (sep ++ t)) = (piece.reverse ++ p) :: splitFrom sep [] t := by
  induction p generalizing piece with
  | nil =>
    obtain ⟨c, rest, hsep⟩ := List.exists_cons_of_ne_nil h.ne_nil
    rw [List.nil_append, List.append_nil]
    conv_lhs => rw [hsep, List.cons_append, splitFrom]
    rw [← List.cons_append, ← hsep]
    split
    · rename_i after hafter
      rw [dif_neg h.ne_nil,
        List.append_cancel_left (stripPrefix?_eq_some_iff.1 hafter)]
    · rename_i hafter
      exact absurd (List.prefix_append sep t) (stripPrefix?_eq_none_iff.1 hafter)
  | cons c p ih =>
    have hrest : ¬ sep <:+: p := fun hin => hp (List.infix_cons_iff.2 (.inr hin))
    have hnone : stripPrefix? sep (c :: (p ++ (sep ++ t))) = none := by
      refine stripPrefix?_eq_none_iff.2 fun hstart => ?_
      rw [← List.cons_append] at hstart
      -- the occurrence ends in the piece, or the next one starts in it
      rcases prefix_append_cases hstart with hin | ⟨b, hnil, hb, hpre⟩
      · exact hp hin.isInfix
      · exact h.not_prefix (List.cons_ne_nil c p) hnil hb t hpre
    rw [List.cons_append, splitFrom, hnone]
    rw [ih hrest]
    simp

/-- **There is one way to split** a text at a separator that does not overlap itself. -/
theorem splitOn_eq (h : LeadsOnce sep) {s : List Char} {pieces : List (List Char)}
    (hs : IsSplit sep s pieces) : splitOn sep s = pieces := by
  obtain ⟨hne, rfl, hwithout⟩ := hs
  induction pieces with
  | nil => exact absurd rfl hne
  | cons p pieces ih =>
    obtain ⟨hp, hpieces⟩ := List.forall_mem_cons.1 hwithout
    by_cases hnil : pieces = []
    · rw [hnil, List.intercalate_singleton, splitOn_of_not_infix hp]
    · rw [List.intercalate_cons_of_ne_nil hnil, List.append_assoc, splitOn,
        splitFrom_append h hp]
      exact congrArg (p :: ·) (ih hnil hpieces)

theorem intercalate_append {l l' : List (List Char)} (hl : l ≠ []) (hl' : l' ≠ []) :
    sep.intercalate (l ++ l') = sep.intercalate l ++ (sep ++ sep.intercalate l') := by
  induction l with
  | nil => exact absurd rfl hl
  | cons p l ih =>
    by_cases hnil : l = []
    · subst hnil
      rw [List.singleton_append, List.intercalate_cons_of_ne_nil hl', List.intercalate_singleton,
        List.append_assoc]
    · rw [List.cons_append, List.intercalate_cons_of_ne_nil (by simp [hnil]), ih hnil,
        List.intercalate_cons_of_ne_nil hnil]
      simp only [List.append_assoc]

/-- A text is split part by part. -/
theorem splitOn_append (h : LeadsOnce sep) (s t : List Char) :
    splitOn sep (s ++ (sep ++ t)) = splitOn sep s ++ splitOn sep t := by
  refine splitOn_eq h ⟨by simp [splitOn_ne_nil], ?_, ?_⟩
  · rw [intercalate_append (splitOn_ne_nil sep s) (splitOn_ne_nil sep t), intercalate_splitOn,
      intercalate_splitOn]
  · exact List.forall_mem_append.2 ⟨fun p hp => not_infix_of_mem_splitOn h.ne_nil hp,
      fun p hp => not_infix_of_mem_splitOn h.ne_nil hp⟩

theorem splitOn_intercalate (h : LeadsOnce sep) {parts : List (List Char)} (hne : parts ≠ []) :
    splitOn sep (sep.intercalate parts) = parts.flatMap (splitOn sep) := by
  induction parts with
  | nil => exact absurd rfl hne
  | cons p parts ih =>
    by_cases hnil : parts = []
    · rw [hnil, List.intercalate_singleton, List.flatMap_singleton]
    · rw [List.intercalate_cons_of_ne_nil hnil, List.append_assoc, splitOn_append h, ih hnil,
        List.flatMap_cons]

/-! ## Replacing in the parts of a text -/

/-- Text is replaced part by part. -/
theorem replaceAll_intercalate (h : LeadsOnce sep) (value : List Char)
    {parts : List (List Char)} (hne : parts ≠ []) :
    replaceAll sep value (sep.intercalate parts) =
      value.intercalate (parts.map (replaceAll sep value)) := by
  unfold replaceAll
  rw [splitOn_intercalate h hne]
  clear hne
  induction parts with
  | nil => rfl
  | cons p parts ih =>
    rw [List.flatMap_cons, List.map_cons]
    by_cases hnil : parts = []
    · simp [hnil]
    · obtain ⟨q, more, rfl⟩ := List.exists_cons_of_ne_nil hnil
      rw [intercalate_append (splitOn_ne_nil sep p) (by simp [splitOn_ne_nil]), ih,
        List.intercalate_cons_of_ne_nil (by simp)]
      simp only [List.append_assoc]

theorem replaceAll_of_not_infix {s : List Char} (h : ¬ sep <:+: s) (value : List Char) :
    replaceAll sep value s = s := by
  rw [replaceAll, splitOn_of_not_infix h, List.intercalate_singleton]

theorem replaceAll_self (sep s : List Char) : replaceAll sep sep s = s := intercalate_splitOn sep s

/-- How often a text occurs in another one, found from left to right. -/
def occurrences (sep s : List Char) : Nat := (splitOn sep s).length - 1

theorem length_splitOn (sep s : List Char) : (splitOn sep s).length = occurrences sep s + 1 := by
  have hpos := List.length_pos_iff.2 (splitOn_ne_nil sep s)
  unfold occurrences
  omega

theorem occurrences_eq_zero_iff (hsep : sep ≠ []) {s : List Char} :
    occurrences sep s = 0 ↔ ¬ sep <:+: s := by
  constructor
  · intro h
    obtain ⟨p, hp⟩ := List.length_eq_one_iff.1 ((length_splitOn sep s).trans (by rw [h]))
    have hs := intercalate_splitOn sep s
    rw [hp, List.intercalate_singleton] at hs
    rw [← hs]
    exact not_infix_of_mem_splitOn hsep (hp ▸ List.mem_singleton_self p)
  · intro h
    rw [occurrences, splitOn_of_not_infix h]
    rfl

theorem sum_occurrences_eq_zero_iff (hsep : sep ≠ []) {parts : List (List Char)} :
    (parts.map (occurrences sep)).sum = 0 ↔ ∀ p ∈ parts, ¬ sep <:+: p := by
  rw [List.sum_eq_zero_iff_forall_eq_nat, List.forall_mem_map]
  exact forall₂_congr fun p _ => occurrences_eq_zero_iff hsep

/-- Parts put together have the separators between them as occurrences, and those in the parts. -/
theorem occurrences_intercalate (h : LeadsOnce sep) {parts : List (List Char)} (hne : parts ≠ []) :
    occurrences sep (sep.intercalate parts) + 1 =
      (parts.map (occurrences sep)).sum + parts.length := by
  rw [← length_splitOn, splitOn_intercalate h hne]
  clear hne
  induction parts with
  | nil => rfl
  | cons p parts ih =>
    rw [List.flatMap_cons, List.length_append, ih, length_splitOn, List.map_cons, List.sum_cons,
      List.length_cons]
    omega

/-- What makes no occurrence with the text behind it does not count. -/
theorem occurrences_append (h : LeadsOnce sep) {p : List Char}
    (hp : ∀ q, sep <:+: p ++ q → sep <:+: q) (s : List Char) :
    occurrences sep (p ++ s) = occurrences sep s := by
  obtain ⟨q, qs, hsplit⟩ := List.exists_cons_of_ne_nil (splitOn_ne_nil sep s)
  obtain ⟨-, hjoined, hwithout⟩ := isSplit_splitOn h.ne_nil s
  rw [hsplit] at hjoined hwithout
  obtain ⟨hq, hqs⟩ := List.forall_mem_cons.1 hwithout
  have hpieces : IsSplit sep (p ++ s) ((p ++ q) :: qs) := by
    refine ⟨List.cons_ne_nil _ _, ?_, List.forall_mem_cons.2 ⟨mt (hp q) hq, hqs⟩⟩
    rw [hjoined]
    cases qs with
    | nil => simp
    | cons q' qs => rw [List.intercalate_cons_cons, List.intercalate_cons_cons]; simp
  rw [occurrences, occurrences, splitOn_eq h hpieces, hsplit]
  rfl

theorem occurrences_self_append (h : LeadsOnce sep) (s : List Char) :
    occurrences sep (sep ++ s) = occurrences sep s + 1 := by
  have hsplit := splitOn_append h [] s
  have hnil : splitOn sep [] = [[]] := by rw [splitOn, splitFrom]; rfl
  rw [List.nil_append, hnil, List.singleton_append] at hsplit
  rw [occurrences, hsplit, List.length_cons, length_splitOn]
  rfl

theorem length_intercalate (sep : List Char) {parts : List (List Char)} (hne : parts ≠ []) :
    (sep.intercalate parts).length + sep.length =
      (parts.map List.length).sum + parts.length * sep.length := by
  induction parts with
  | nil => exact absurd rfl hne
  | cons p parts ih =>
    by_cases hnil : parts = []
    · simp [hnil]
    · rw [List.intercalate_cons_of_ne_nil hnil, List.map_cons, List.sum_cons, List.length_cons,
        Nat.succ_mul, List.length_append, List.length_append]
      have := ih hnil
      omega

/-- Every occurrence counts with its length, and what is put in its place with its own. -/
theorem length_replaceAll (sep value s : List Char) :
    (replaceAll sep value s).length + occurrences sep s * sep.length =
      s.length + occurrences sep s * value.length := by
  have hvalue := length_intercalate value (splitOn_ne_nil sep s)
  have hsep := length_intercalate sep (splitOn_ne_nil sep s)
  rw [length_splitOn, Nat.succ_mul] at hvalue hsep
  rw [intercalate_splitOn] at hsep
  unfold replaceAll
  omega

theorem eq_of_intercalate_eq {l l' : List (List Char)}
    (hlengths : List.Forall₂ (fun p q => p.length = q.length) l l')
    (h : sep.intercalate l = sep.intercalate l') : l = l' := by
  induction hlengths with
  | nil => rfl
  | @cons p q l l' hpq hlengths ih =>
    by_cases hnil : l = []
    · subst hnil
      cases hlengths
      simpa using h
    · have hnil' : l' ≠ [] := by
        rintro rfl
        cases hlengths
        exact hnil rfl
      rw [List.intercalate_cons_of_ne_nil hnil, List.intercalate_cons_of_ne_nil hnil',
        List.append_assoc, List.append_assoc] at h
      obtain ⟨rfl, hrest⟩ := List.append_inj h hpq
      rw [ih (List.append_cancel_left hrest)]

/-- The lengths of parts in which something is replaced. -/
theorem sum_length_replaceAll (sep value : List Char) (parts : List (List Char)) :
    ((parts.map (replaceAll sep value)).map List.length).sum +
        (parts.map (occurrences sep)).sum * sep.length =
      (parts.map List.length).sum + (parts.map (occurrences sep)).sum * value.length := by
  induction parts with
  | nil => simp
  | cons p parts ih =>
    have hp := length_replaceAll sep value p
    simp only [List.map_cons, List.sum_cons, Nat.add_mul]
    omega

/-- A text with an occurrence stays as it is only if the occurrence is replaced by itself. -/
theorem eq_of_replaceAll_eq_self (hsep : sep ≠ []) {value s : List Char}
    (hlength : value.length = sep.length) (h : replaceAll sep value s = s) (hs : sep <:+: s) :
    value = sep := by
  have hjoined := intercalate_splitOn sep s
  rw [replaceAll] at h
  match hsplit : splitOn sep s with
  | [] => exact absurd hsplit (splitOn_ne_nil sep s)
  | [p] =>
    rw [hsplit, List.intercalate_singleton] at hjoined
    subst hjoined
    exact absurd hs (not_infix_of_mem_splitOn hsep (hsplit ▸ List.mem_singleton_self p))
  | p :: q :: more =>
    have hsame := h.trans hjoined.symm
    rw [hsplit, List.intercalate_cons_cons, List.intercalate_cons_cons, List.append_assoc,
      List.append_assoc] at hsame
    exact List.append_inj_left (List.append_cancel_left hsame) hlength

/-- **Replacing the separators of parts** replaces nothing else exactly if none of the parts has the
separator in it, or it is replaced by itself. -/
theorem replaceAll_intercalate_eq_iff (h : LeadsOnce sep) {value : List Char}
    {parts : List (List Char)} (hne : parts ≠ []) :
    replaceAll sep value (sep.intercalate parts) = value.intercalate parts ↔
      value = sep ∨ ∀ p ∈ parts, ¬ sep <:+: p := by
  rw [replaceAll_intercalate h value hne]
  constructor
  · intro heq
    by_contra hnot
    obtain ⟨hvalue, hparts⟩ := not_or.1 hnot
    -- the whole has its length only if `sep` and `value` have the same one
    have hzero : (parts.map (occurrences sep)).sum ≠ 0 :=
      mt (sum_occurrences_eq_zero_iff h.ne_nil).1 hparts
    have hsum := length_intercalate value (by simpa using hne :
      parts.map (replaceAll sep value) ≠ [])
    rw [heq, length_intercalate value hne, List.length_map] at hsum
    have hreplaced := sum_length_replaceAll sep value parts
    have hlength : value.length = sep.length :=
      Nat.eq_of_mul_eq_mul_left (Nat.pos_of_ne_zero hzero) (by omega)
    have hsame : parts.map (replaceAll sep value) = parts := by
      refine eq_of_intercalate_eq ?_ heq
      rw [List.forall₂_map_left_iff, List.forall₂_same]
      intro p _
      have hp := length_replaceAll sep value p
      rw [hlength] at hp
      exact Nat.add_right_cancel hp
    refine hparts fun p hp hin => hvalue ?_
    have hp := List.map_inj_left.1 (hsame.trans (List.map_id parts).symm) p hp
    exact eq_of_replaceAll_eq_self h.ne_nil hlength hp hin
  · rintro (rfl | hparts)
    · rw [List.map_congr_left fun p _ => replaceAll_self _ p, List.map_id']
    · rw [List.map_congr_left fun p hp => replaceAll_of_not_infix (hparts p hp) value,
        List.map_id']

end ShaderModules.Text
