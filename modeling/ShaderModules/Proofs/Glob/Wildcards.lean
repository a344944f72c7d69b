import Mathlib.Data.List.Induction
import ShaderModules.Proofs.Glob.Bytes

/-!
# What stars match

A star in a pattern stands for any text without a slash (`accepts_star`), two stars behind a slash
at the end stand for whatever comes behind the slash (`accepts_tree`), and `**/*` in front of an
extension stands for any path whose last segment ends with it (`accepts_extension`).

* `leads`: whether tokens lead from the start of a text to its end.
* `Coherent`: rows for all texts, of which each one goes on as that of the rest of its text.
-/

namespace ShaderModules.Glob

open ShaderModules.Path

/-! ## Rows for all texts -/

/-- Rows for all texts, of which each one goes on as that of the rest of its text. -/
def Coherent (rows : List UInt8 → List Bool) : Prop := ∀ b s, ∃ r, rows (b :: s) = r :: rows s

/-- Whether tokens lead from the start of a text to its end. -/
def leads (ts : List Token) (s : List UInt8) : Bool := (backAll s ts (endRow s)).headD false

theorem coherent_backAll (ts : List Token) : Coherent fun s => backAll s ts (endRow s) :=
  fun b s => backAll_cons b s ts false (endRow s)

section Rows

variable {rows : List UInt8 → List Bool} (h : Coherent rows)
include h

theorem Coherent.foldr_backByte (bytes : List UInt8) :
    Coherent fun s => bytes.foldr (fun c row => backByte (· == c) s row) (rows s) := by
  intro b s
  obtain ⟨r, hr⟩ := h b s
  simp only [hr]
  exact foldr_backByte_cons b s bytes r (rows s)

/-- One byte leads on from the text behind it. -/
theorem Coherent.headD_backByte {p : UInt8 → Bool} {s : List UInt8} :
    (backByte p s (rows s)).headD false = true ↔
      ∃ b r, s = b :: r ∧ p b = true ∧ (rows r).headD false = true := by
  cases s with
  | nil => simp [backByte]
  | cons b s =>
    obtain ⟨r, hr⟩ := h b s
    simp only [hr, backByte, List.headD_cons, Bool.and_eq_true]
    constructor
    · rintro ⟨hb, hs⟩
      exact ⟨b, s, rfl, hb, hs⟩
    · rintro ⟨b', s', hsplit, hb, hs⟩
      obtain ⟨rfl, rfl⟩ := List.cons.inj hsplit
      exact ⟨hb, hs⟩

/-- Bytes lead on from the text behind them. -/
theorem Coherent.headD_foldr_backByte {bytes s : List UInt8} :
    (bytes.foldr (fun c row => backByte (· == c) s row) (rows s)).headD false = true ↔
      ∃ r, s = bytes ++ r ∧ (rows r).headD false = true := by
  induction bytes generalizing s with
  | nil => simp
  | cons c bytes ih =>
    rw [List.foldr_cons, (h.foldr_backByte bytes).headD_backByte]
    constructor
    · rintro ⟨b, r, rfl, hb, hr⟩
      obtain ⟨r', rfl, hr'⟩ := ih.1 hr
      exact ⟨r', by rw [beq_iff_eq.1 hb]; rfl, hr'⟩
    · rintro ⟨r, rfl, hr⟩
      exact ⟨c, bytes ++ r, rfl, beq_self_eq_true c, ih.2 ⟨r, rfl, hr⟩⟩

/-- Any number of bytes leads on from the text behind them. -/
theorem Coherent.headD_backMany {p : UInt8 → Bool} {s : List UInt8} :
    (backMany p s (rows s)).headD false = true ↔
      ∃ u r, s = u ++ r ∧ (∀ b ∈ u, p b = true) ∧ (rows r).headD false = true := by
  induction s with
  | nil =>
    constructor
    · exact fun hend => ⟨[], [], rfl, by simp, hend⟩
    · rintro ⟨u, r, hsplit, -, hr⟩
      rwa [(List.append_eq_nil_iff.1 hsplit.symm).2] at hr
  | cons b s ih =>
    obtain ⟨r, hr⟩ := h b s
    rw [hr, backMany, List.headD_cons, Bool.or_eq_true, Bool.and_eq_true, ih]
    constructor
    · rintro (hnow | ⟨hb, u, rest, rfl, hu, hrest⟩)
      · exact ⟨[], b :: s, rfl, by simp, by rw [hr]; exact hnow⟩
      · exact ⟨b :: u, rest, rfl, List.forall_mem_cons.2 ⟨hb, hu⟩, hrest⟩
    · rintro ⟨u, rest, hsplit, hu, hrest⟩
      cases u with
      | nil =>
        rw [List.nil_append] at hsplit
        rw [← hsplit, hr] at hrest
        exact .inl hrest
      | cons b' u =>
        obtain ⟨rfl, rfl⟩ := List.cons.inj hsplit
        obtain ⟨hb, hu⟩ := List.forall_mem_cons.1 hu
        exact .inr ⟨hb, u, rest, rfl, hu, hrest⟩

end Rows

/-! ## Tokens that lead on -/

theorem leads_nil {s : List UInt8} : leads [] s = true ↔ s = [] := by
  cases s <;> simp [leads, backAll, endRow]

theorem leads_literals {l : List Char} {ts : List Token} {s : List UInt8} :
    leads (literals l ++ ts) s = true ↔ ∃ r, s = bytesOf l ++ r ∧ leads ts r = true := by
  induction l generalizing s with
  | nil => simp [literals]
  | cons c l ih =>
    change (Token.back s (.literal c) (backAll s (literals l ++ ts) _)).headD false = true ↔ _
    rw [Token.back, (coherent_backAll _).headD_foldr_backByte]
    change (∃ r, s = charBytes c ++ r ∧ leads (literals l ++ ts) r = true) ↔ _
    simp only [ih, bytesOf_cons]
    constructor
    · rintro ⟨r, rfl, r', rfl, hr'⟩
      exact ⟨r', (List.append_assoc ..).symm, hr'⟩
    · rintro ⟨r, rfl, hr⟩
      exact ⟨bytesOf l ++ r, List.append_assoc .., r, rfl, hr⟩

theorem leads_many {ts : List Token} {s : List UInt8} : leads (.many :: ts) s = true ↔
    ∃ u r, s = u ++ r ∧ (∀ b ∈ u, isPlain b = true) ∧ leads ts r = true :=
  (coherent_backAll ts).headD_backMany

/-- Literal characters around a star match a text that has them at its ends and no slash between
them. -/
theorem leads_star {l e path : List Char} :
    leads (literals l ++ .many :: literals e) (bytesOf path) = true ↔
      ∃ n, '/' ∉ n ∧ path = l ++ (n ++ e) := by
  rw [← List.append_nil (literals e)]
  simp only [leads_literals, leads_many, leads_nil]
  constructor
  · rintro ⟨r, hpath, u, r', rfl, hu, r'', rfl, rfl⟩
    obtain ⟨rest, rfl, hrest⟩ := exists_of_bytesOf_append hpath.symm
    rw [List.append_nil] at hrest
    obtain ⟨n, rfl, rfl⟩ := exists_of_append_bytesOf hrest.symm
    exact ⟨n, forall_isPlain_iff.1 hu, rfl⟩
  · rintro ⟨n, hn, rfl⟩
    exact ⟨_, bytesOf_append _ _, bytesOf n, _, bytesOf_append _ _, forall_isPlain_iff.2 hn, [],
      (List.append_nil _).symm, rfl⟩

/-! ## Literal characters around a star -/

theorem parse_star {l e : List Char} (hl : ∀ c ∈ l, c ∉ wildcards) (he : ∀ c ∈ e, c ∉ wildcards) :
    parse (String.ofList (l ++ '*' :: e)) = .ok (literals l ++ .many :: literals e) := by
  have hstar : e.head? ≠ some '*' := fun h => he '*' (List.mem_of_head? h) (by decide)
  have hend := parseFrom_plain he (some '*') (.many :: (literals l).reverse) []
  rw [List.append_nil, parseFrom_nil] at hend
  rw [parse_ofList, show ({} : Draft) = ⟨[], []⟩ from rfl, parseFrom_plain hl,
    parseFrom_many _ _ _ hstar, List.append_nil]
  change finish (parseFrom (some '*') ⟨.many :: (literals l).reverse, []⟩ e) = _
  rw [hend]
  simp [finish]

/-- An extension that is found in front of `read` goes on to the end from a dot on. -/
theorem exists_of_lastExtension? {e read text : List Char} {before : List Token}
    (hdot : '.' ∉ read) (hslash : '/' ∉ read)
    (h : lastExtension? read (literals e ++ .many :: before) = some text) :
    ∃ w, text = '.' :: w ∧ '.' ∉ w ∧ '/' ∉ text ∧ text <:+ e.reverse ++ read := by
  induction e generalizing read with
  | nil => cases h
  | cons c e ih =>
    change lastExtension? read (.literal c :: (literals e ++ .many :: before)) = some text at h
    rw [List.reverse_cons, List.append_assoc, List.singleton_append]
    rw [lastExtension?] at h
    split at h
    · cases h
    · rename_i hc
      have hslash' : '/' ∉ c :: read := by
        rw [List.mem_cons, not_or]
        exact ⟨Ne.symm hc, hslash⟩
      split at h
      · rename_i hc
        cases h
        subst hc
        exact ⟨read, rfl, hdot, hslash', List.suffix_append _ _⟩
      · rename_i hc
        have hdot' : '.' ∉ c :: read := by
          rw [List.mem_cons, not_or]
          exact ⟨Ne.symm hc, hdot⟩
        exact ih hdot' hslash' h

/-- Text without a slash ends the last segment of a text that it ends. -/
theorem exists_getLast?_segments {l t : List Char} (ht : '/' ∉ t) (h : t <:+ l) :
    ∃ n, (segments l).getLast? = some n ∧ t <:+ n := by
  obtain ⟨front, rfl⟩ := h
  obtain ⟨before, last, hfront⟩ : ∃ before last, segments front = before ++ [last] :=
    ⟨_, _, (List.dropLast_concat_getLast (segments_ne_nil front)).symm⟩
  refine ⟨last ++ t, ?_, List.suffix_append _ _⟩
  rw [segments_append hfront (segments_of_notMem ht), List.getLast?_concat]

section Star

variable (l e : List Char)

theorem head?_star_ne : (literals l ++ .many :: literals e).head? ≠ some .leadingTree := by
  cases l <;> simp [literals]

theorem plainShape_star : plainShape (literals l ++ .many :: literals e) = none := by
  have hliterals : literals? (literals l ++ .many :: literals e) = none := by
    rw [literals?_append]
    rfl
  unfold plainShape
  rw [hliterals, List.reverse_append, List.reverse_cons, List.append_assoc]
  cases e using List.reverseRecOn <;> simp [literals]

/-- Around a star, literal characters are matched as tokens: the extension that is compared first is
the end of them. -/
theorem matches_star (path : List Char) :
    (Shape.ofTokens (literals l ++ .many :: literals e)).matches (bytesOf path) =
      leads (literals l ++ .many :: literals e) (bytesOf path) := by
  have hmatch := tokensMatch_of_ne (head?_star_ne l e) (bytesOf path)
  rw [Shape.ofTokens_of_ne (head?_star_ne l e), plainShape_star]
  cases hlast : lastExtension? [] (literals l ++ .many :: literals e).reverse with
  | none => exact hmatch
  | some text =>
    change (hasExtension (bytesOf path) text && tokensMatch _ _) = _
    rw [hmatch]
    refine Bool.and_eq_right_iff_imp.2 fun hleads => ?_
    have hreverse : (literals l ++ .many :: literals e).reverse =
        literals e.reverse ++ .many :: (literals l).reverse := by simp [literals]
    rw [hreverse] at hlast
    obtain ⟨w, rfl, hw, hslash, hends⟩ := exists_of_lastExtension? (by simp) (by simp) hlast
    rw [List.reverse_reverse, List.append_nil] at hends
    obtain ⟨n, -, hpath⟩ := leads_star.1 hleads
    have hsuffix : '.' :: w <:+ path := by
      rw [hpath, ← List.append_assoc]
      exact hends.trans (List.suffix_append _ _)
    obtain ⟨segment, hsegment, hin⟩ := exists_getLast?_segments hslash hsuffix
    exact (hasExtension_iff hsegment hw).2 hin

end Star

/-! ## Patterns -/

theorem literals?_literals (l : List Char) : literals? (literals l) = some l := by
  have happend := literals?_append l []
  rw [List.append_nil] at happend
  exact happend.trans (by simp [literals?])

/-- **A star stands for text without a slash.** -/
theorem accepts_star {l e : List Char} (hl : ∀ c ∈ l, c ∉ wildcards) (he : ∀ c ∈ e, c ∉ wildcards)
    (path : List Char) :
    accepts (l ++ '*' :: e) path = true ↔ ∃ n, '/' ∉ n ∧ path = l ++ (n ++ e) := by
  unfold accepts
  rw [parse_star hl he]
  change (Shape.ofTokens _).matches (bytesOf path) = true ↔ _
  rw [matches_star, leads_star]

theorem parse_tree {l : List Char} (hl : ∀ c ∈ l, c ∉ wildcards) :
    parse (String.ofList (l ++ ['/', '*', '*'])) = .ok (literals l ++ [.trailingTree]) := by
  rw [parse_ofList, parseFrom_plain_slash hl, parseFrom_tree]
  change finish (parseFrom (some '*') ⟨.trailingTree :: (literals l).reverse, []⟩ []) = _
  rw [parseFrom_nil]
  simp [finish]

/-- **Two stars behind a slash stand for whatever comes behind it.** -/
theorem accepts_tree {l : List Char} (hl : ∀ c ∈ l, c ∉ wildcards) (path : List Char) :
    accepts (l ++ ['/', '*', '*']) path = true ↔ l ++ ['/'] <+: path := by
  have hliterals : literals? (literals l ++ [.trailingTree]) = none := by
    rw [literals?_append]
    rfl
  have hne : (literals l ++ [Token.trailingTree]).head? ≠ some .leadingTree :=
    head?_literals_append_ne .trailingTree l []
  unfold accepts
  rw [parse_tree hl]
  change (Shape.ofTokens _).matches (bytesOf path) = true ↔ _
  rw [Shape.ofTokens_of_ne hne, plainShape_tree hliterals, literals?_literals]
  change (bytesOf (l ++ ['/'])).isPrefixOf (bytesOf path) = true ↔ _
  rw [List.isPrefixOf_iff_prefix, bytesOf_prefix_iff]

theorem parse_extension {w : List Char} (hw : ∀ c ∈ w, c ∉ wildcards) :
    parse (String.ofList ('*' :: '*' :: '/' :: '*' :: '.' :: w)) =
      .ok (.leadingTree :: .many :: literals ('.' :: w)) := by
  have hdot : ∀ c ∈ '.' :: w, c ∉ wildcards := List.forall_mem_cons.2 ⟨by decide, hw⟩
  have hend := parseFrom_plain hdot (some '*') [.many, .leadingTree] []
  rw [List.append_nil, parseFrom_nil] at hend
  rw [parse_ofList, parseFrom_tree]
  change finish (parseFrom (some '/') ⟨[.leadingTree], []⟩ ('*' :: '.' :: w)) = _
  rw [parseFrom_many _ _ _ (by simp)]
  change finish (parseFrom (some '*') ⟨[.many, .leadingTree], []⟩ ('.' :: w)) = _
  rw [hend]
  simp [finish]

/-- **A tree and a star in front of an extension stand for all paths whose last segment ends with
it.** -/
theorem accepts_extension {w : List Char} (hw : ∀ c ∈ w, c ∉ wildcards) (hdot : '.' ∉ w)
    (hslash : '/' ∉ w) {path n : List Char} (hn : (segments path).getLast? = some n) :
    accepts ('*' :: '*' :: '/' :: '*' :: '.' :: w) path = true ↔ '.' :: w <:+ n := by
  have hextension : extension? (literals ('.' :: w)) = some ('.' :: w) := by
    have hliterals : literals ('.' :: w) = .literal '.' :: literals w := rfl
    rw [hliterals, extension?, literals?_literals]
    simp [hdot, hslash]
  have hshape : Shape.ofTokens (.leadingTree :: .many :: literals ('.' :: w)) =
      .extension ('.' :: w) := by
    unfold Shape.ofTokens
    simp only [shapeInTree, literals?, hextension, Option.map_some]
  unfold accepts
  rw [parse_extension hw]
  change (Shape.ofTokens _).matches (bytesOf path) = true ↔ _
  rw [hshape]
  exact hasExtension_iff hn hdot

end ShaderModules.Glob
