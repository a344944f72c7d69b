import ShaderModules.Glob.Matching
import ShaderModules.Proofs.Glob.Parsing

/-!
# Paths that start with the plain text of a pattern

A pattern that starts with plain text and goes on with a slash matches a path that starts with the
same text exactly if the rest of the pattern matches the rest of the path (`accepts_append`). The
shape of a pattern, which decides how it is matched, depends on the text in front of the slash only
by the text that is compared (`Shape.matches_append`).

* `backAll_append`: what a row says about the end of a text does not depend on the front.
* `headD_backAll_literals`: literal characters take the text they spell.
* `Shape.ofTokens_append`: the shape with plain text in front.
* `accepts`: whether the text of a pattern can be used and matches a path.
-/

namespace ShaderModules.Glob

/-! ## Bytes -/

theorem bytesOf_append (a b : List Char) : bytesOf (a ++ b) = bytesOf a ++ bytesOf b := by
  unfold bytesOf
  rw [String.ofList_append]
  simp

@[simp] theorem bytesOf_nil : bytesOf [] = [] := by rfl

theorem bytesOf_ne_nil {l : List Char} (h : l ≠ []) : bytesOf l ≠ [] := by
  intro hnil
  have hsize : (String.ofList l).utf8ByteSize = 0 := by
    simpa [bytesOf, String.utf8ByteSize] using congrArg List.length hnil
  exact h (by simpa using String.utf8ByteSize_eq_zero_iff.1 hsize)

theorem bytesOf_inj {a b : List Char} : bytesOf a = bytesOf b ↔ a = b := by
  refine ⟨fun h => ?_, congrArg bytesOf⟩
  have hbytes : (String.ofList a).toByteArray = (String.ofList b).toByteArray :=
    ByteArray.ext (Array.toList_inj.1 h)
  exact String.ofList_injective (String.toByteArray_inj.1 hbytes)

theorem bytesOf_cons (c : Char) (l : List Char) : bytesOf (c :: l) = charBytes c ++ bytesOf l :=
  bytesOf_append [c] l

/-! ## Rows at the end of a text -/

/-- A literal character adds one place at the front of the row for one more byte of text. -/
theorem foldr_backByte_cons (b : UInt8) (s : List UInt8) (bytes : List UInt8) (r : Bool)
    (row : List Bool) :
    ∃ r', bytes.foldr (fun c row => backByte (· == c) (b :: s) row) (r :: row) =
      r' :: bytes.foldr (fun c row => backByte (· == c) s row) row := by
  induction bytes with
  | nil => exact ⟨r, rfl⟩
  | cons c rest ih =>
    obtain ⟨r', hr⟩ := ih
    rw [List.foldr_cons, hr]
    exact ⟨_, rfl⟩

mutual

/-- With one more byte in front of the text, a token adds one place to the row. -/
theorem Token.back_cons (b : UInt8) (s : List UInt8) (t : Token) (r : Bool) (row : List Bool) :
    ∃ r', t.back (b :: s) (r :: row) = r' :: t.back s row := by
  match t with
  | .literal c => simpa only [Token.back] using foldr_backByte_cons b s (charBytes c) r row
  | .any => exact ⟨_, rfl⟩
  | .many => exact ⟨_, rfl⟩
  | .leadingTree => exact ⟨_, rfl⟩
  | .trailingTree => exact ⟨_, rfl⟩
  | .innerTree => exact ⟨_, rfl⟩
  | .oneOf negated ranges => exact ⟨_, rfl⟩
  | .alternatives branches =>
    simp only [Token.back]
    split
    · exact ⟨r, rfl⟩
    · exact backAny_cons b s branches r row

theorem backAll_cons (b : UInt8) (s : List UInt8) (ts : List Token) (r : Bool)
    (row : List Bool) : ∃ r', backAll (b :: s) ts (r :: row) = r' :: backAll s ts row := by
  match ts with
  | [] => exact ⟨r, rfl⟩
  | t :: rest =>
    obtain ⟨r', hr⟩ := backAll_cons b s rest r row
    simp only [backAll, hr]
    exact Token.back_cons b s t r' _

theorem backAny_cons (b : UInt8) (s : List UInt8) (branches : List (List Token)) (r : Bool)
    (row : List Bool) :
    ∃ r', backAny (b :: s) branches (r :: row) = r' :: backAny s branches row := by
  match branches with
  | [] => exact ⟨false, rfl⟩
  | branch :: rest =>
    obtain ⟨r', hr⟩ := backAny_cons b s rest r row
    simp only [backAny]
    split
    · exact ⟨r', hr⟩
    · obtain ⟨r'', hr'⟩ := backAll_cons b s branch r row
      rw [hr, hr']
      exact ⟨_, rfl⟩

end

/-- The places at the end of a text are those of the end by itself. -/
theorem backAll_append (p s : List UInt8) (ts : List Token) :
    ∃ front, front.length = p.length ∧
      backAll (p ++ s) ts (endRow (p ++ s)) = front ++ backAll s ts (endRow s) := by
  induction p with
  | nil => exact ⟨[], rfl, rfl⟩
  | cons b p ih =>
    obtain ⟨front, hlength, heq⟩ := ih
    obtain ⟨r, hr⟩ := backAll_cons b (p ++ s) ts false (endRow (p ++ s))
    exact ⟨r :: front, congrArg (· + 1) hlength, by rw [List.cons_append, endRow, hr, heq]; rfl⟩

/-- In front of the bytes of a character, the character leads to what comes behind them. -/
theorem headD_foldr_backByte (bytes s : List UInt8) {front : List Bool}
    (h : front.length = bytes.length) (row : List Bool) :
    (bytes.foldr (fun c row => backByte (· == c) (bytes ++ s) row) (front ++ row)).headD false =
      row.headD false := by
  induction bytes generalizing front with
  | nil =>
    rw [List.length_eq_zero_iff.1 h]
    rfl
  | cons b rest ih =>
    obtain ⟨r, front, rfl⟩ := List.exists_cons_of_length_eq_add_one h
    obtain ⟨r', hr⟩ := foldr_backByte_cons b (rest ++ s) rest r (front ++ row)
    rw [List.foldr_cons, List.cons_append, List.cons_append, hr]
    simpa [backByte] using ih (Nat.succ.inj h)

/-- Literal characters in front of the text they spell lead to the rest of the text. -/
theorem headD_backAll_literals (l : List Char) (ts : List Token) (s : List UInt8) :
    (backAll (bytesOf l ++ s) (literals l ++ ts) (endRow (bytesOf l ++ s))).headD false =
      (backAll s ts (endRow s)).headD false := by
  induction l with
  | nil => rfl
  | cons c l ih =>
    rw [bytesOf_cons, List.append_assoc]
    obtain ⟨front, hlength, heq⟩ :=
      backAll_append (charBytes c) (bytesOf l ++ s) (literals l ++ ts)
    change (Token.back _ (.literal c) (backAll _ (literals l ++ ts) _)).headD false = _
    rw [Token.back, heq, headD_foldr_backByte _ _ hlength, ih]

/-! ## Tokens with plain text in front -/

theorem tokensMatch_of_ne {tokens : List Token} (h : tokens.head? ≠ some .leadingTree)
    (s : List UInt8) : tokensMatch tokens s = (backAll s tokens (endRow s)).headD false := by
  unfold tokensMatch
  split
  · exact absurd rfl h
  · rfl

theorem Token.IsSlash.head?_ne {t : Token} (h : t.IsSlash) (rest : List Token) :
    (t :: rest).head? ≠ some .leadingTree := by
  cases h <;> simp

theorem head?_literals_append_ne {t : Token} (h : t.IsSlash) (l : List Char) (rest : List Token) :
    (literals l ++ t :: rest).head? ≠ some .leadingTree := by
  cases l with
  | nil => exact h.head?_ne rest
  | cons c l => simp [literals]

theorem tokensMatch_append {t : Token} (h : t.IsSlash) (l : List Char) (rest : List Token)
    (s : List UInt8) :
    tokensMatch (literals l ++ t :: rest) (bytesOf l ++ s) = tokensMatch (t :: rest) s := by
  rw [tokensMatch_of_ne (head?_literals_append_ne h l rest), tokensMatch_of_ne (h.head?_ne rest),
    headD_backAll_literals]

/-- A pattern that starts with a slash does not match the empty text. -/
theorem tokensMatch_nil {t : Token} (h : t.IsSlash) (rest : List Token) :
    tokensMatch (t :: rest) [] = false := by
  rw [tokensMatch_of_ne (h.head?_ne rest)]
  cases h <;> rfl

/-! ## Shapes with plain text in front -/

theorem literals?_append (l : List Char) (ts : List Token) :
    literals? (literals l ++ ts) = (literals? ts).map (l ++ ·) := by
  induction l with
  | nil => simp [literals]
  | cons c l ih =>
    change (literals? (literals l ++ ts)).map (c :: ·) = _
    rw [ih, Option.map_map]
    rfl

/-- An extension is looked for from the end and not beyond a slash. -/
theorem lastExtension?_append {t : Token} (h : t.IsSlash) (read : List Char)
    (before more : List Token) :
    lastExtension? read (before ++ t :: more) = lastExtension? read (before ++ [t]) := by
  induction before generalizing read with
  | nil => cases h <;> rfl
  | cons b before ih =>
    cases b <;> try rfl
    simp only [List.cons_append, lastExtension?, ih]

/-- The shape of a pattern that starts with a slash, and that of the same pattern behind plain
text. -/
inductive Shape.Behind (l : List Char) (tokens : List Token) : Shape → Shape → Prop where
  | whole {text : List Char} : text ≠ [] → Behind l tokens (.whole text) (.whole (l ++ text))
  | below {text : List Char} : text ≠ [] → Behind l tokens (.below text) (.below (l ++ text))
  | withExtension (text : List Char) :
    Behind l tokens (.withExtension text tokens) (.withExtension text (literals l ++ tokens))
  | general : Behind l tokens (.general tokens) (.general (literals l ++ tokens))

theorem Shape.ofTokens_of_ne {tokens : List Token} (h : tokens.head? ≠ some .leadingTree) :
    Shape.ofTokens tokens =
      match plainShape tokens with
      | some shape => shape
      | none =>
        match lastExtension? [] tokens.reverse with
        | some l => .withExtension l tokens
        | none => .general tokens := by
  unfold Shape.ofTokens
  cases tokens with
  | nil => rfl
  | cons t rest => cases t <;> first | rfl | exact absurd rfl h

theorem plainShape_of_literals {tokens : List Token} {text : List Char}
    (h : literals? tokens = some text) (hne : text ≠ []) :
    plainShape tokens = some (.whole text) := by
  unfold plainShape
  rw [h]
  cases text with
  | nil => exact absurd rfl hne
  | cons c text => rfl

theorem plainShape_tree {before : List Token} (h : literals? (before ++ [.trailingTree]) = none) :
    plainShape (before ++ [.trailingTree]) =
      (literals? before).map fun text => .below (text ++ ['/']) := by
  unfold plainShape
  rw [h, List.reverse_append]
  simp

theorem plainShape_of_last {before : List Token} {last : Token}
    (h : literals? (before ++ [last]) = none) (hne : last ≠ .trailingTree) :
    plainShape (before ++ [last]) = none := by
  unfold plainShape
  rw [h, List.reverse_append]
  cases last <;> first | rfl | exact absurd rfl hne

/-- Without wildcards, except for a tree at the end, a pattern is compared as text. -/
theorem plainShape_append (l : List Char) (t : Token) (rest : List Token) :
    (plainShape (t :: rest) = none ∧ plainShape (literals l ++ t :: rest) = none) ∨
      ∃ shape shape', plainShape (t :: rest) = some shape ∧
        plainShape (literals l ++ t :: rest) = some shape' ∧
        Shape.Behind l (t :: rest) shape shape' := by
  have happend := literals?_append l (t :: rest)
  cases hlit : literals? (t :: rest) with
  | some text =>
    have hne : text ≠ [] := by
      rintro rfl
      cases t <;> simp [literals?] at hlit
    rw [hlit] at happend
    exact .inr ⟨_, _, plainShape_of_literals hlit hne,
      plainShape_of_literals happend (by simp [hne]), .whole hne⟩
  | none =>
    rw [hlit] at happend
    obtain ⟨before, last, hsplit⟩ : ∃ before last, t :: rest = before ++ [last] :=
      ⟨_, _, (List.dropLast_concat_getLast (List.cons_ne_nil t rest)).symm⟩
    rw [hsplit] at hlit happend ⊢
    rw [← List.append_assoc] at happend ⊢
    by_cases hlast : last = .trailingTree
    · subst hlast
      rw [plainShape_tree hlit, plainShape_tree happend, literals?_append]
      cases literals? before with
      | none => exact .inl ⟨rfl, rfl⟩
      | some text =>
        refine .inr ⟨_, _, rfl, rfl, ?_⟩
        simp only [List.append_assoc]
        exact .below (by simp)
    · exact .inl ⟨plainShape_of_last hlit hlast, plainShape_of_last happend hlast⟩

/-- Plain text in front of a slash changes the shape of a pattern by that text only. -/
theorem Shape.ofTokens_append {t : Token} (h : t.IsSlash) (l : List Char) (rest : List Token) :
    Behind l (t :: rest) (ofTokens (t :: rest)) (ofTokens (literals l ++ t :: rest)) := by
  rw [ofTokens_of_ne (h.head?_ne rest), ofTokens_of_ne (head?_literals_append_ne h l rest)]
  rcases plainShape_append l t rest with ⟨hs, hs'⟩ | ⟨shape, shape', hs, hs', hbehind⟩
  · rw [hs, hs']
    simp only [List.reverse_append, List.reverse_cons, List.append_assoc, List.singleton_append]
    rw [lastExtension?_append h [] rest.reverse (literals l).reverse]
    cases lastExtension? [] (rest.reverse ++ [t]) with
    | some text => exact .withExtension text
    | none => exact .general
  · rw [hs, hs']
    exact hbehind

/-! ## Matching behind plain text -/

/-- The last segment does not depend on what precedes a slash. -/
theorem lastSegment_append (p : List UInt8) {s : List UInt8} (h : 47 ∈ s) :
    lastSegment (p ++ s) = lastSegment s := by
  obtain ⟨before, after, rfl⟩ := List.append_of_mem h
  have hslash : (47 : UInt8) ∈ (before ++ 47 :: after).reverse := by simp
  unfold lastSegment
  rw [List.reverse_append]
  rw [List.takeWhile_append, if_neg]
  intro hlength
  -- otherwise no byte behind the slash, nor the slash itself, would be a slash
  have hall : (before ++ 47 :: after).reverse.all isPlain = true := by
    rw [← (List.takeWhile_prefix _).eq_of_length hlength]
    exact List.all_takeWhile
  exact absurd (List.all_eq_true.1 hall _ hslash) (by decide)

theorem hasExtension_append (p : List UInt8) {s : List UInt8} (h : 47 ∈ s) (text : List Char) :
    hasExtension (p ++ s) text = hasExtension s text := by
  rw [hasExtension, lastSegment_append p h]
  rfl

/-- **A pattern behind plain text** matches a path behind the same text as it matches the path by
itself. -/
theorem Shape.matches_append {t : Token} (h : t.IsSlash) (l : List Char) (rest : List Token)
    {s : List UInt8} (hs : 47 ∈ s) :
    (ofTokens (literals l ++ t :: rest)).matches (bytesOf l ++ s) =
      (ofTokens (t :: rest)).matches s := by
  have hbehind := ofTokens_append h l rest
  generalize ofTokens (t :: rest) = shape, ofTokens (literals l ++ t :: rest) = shape' at hbehind
  cases hbehind with
  | whole _ =>
    simp only [Shape.matches, bytesOf_append]
    rw [Bool.eq_iff_iff, beq_iff_eq, beq_iff_eq, List.append_cancel_left_eq]
  | below _ =>
    simp only [Shape.matches, bytesOf_append]
    rw [Bool.eq_iff_iff, List.isPrefixOf_iff_prefix, List.isPrefixOf_iff_prefix,
      List.prefix_append_right_inj]
  | withExtension text =>
    simp only [Shape.matches, hasExtension_append _ hs, tokensMatch_append h]
  | general => exact tokensMatch_append h l rest s

/-- A pattern that goes on with a slash behind plain text does not match this text. -/
theorem Shape.not_matches {t : Token} (h : t.IsSlash) (l : List Char) (rest : List Token) :
    (ofTokens (literals l ++ t :: rest)).matches (bytesOf l) = false := by
  have hbehind := ofTokens_append h l rest
  have htokens : tokensMatch (literals l ++ t :: rest) (bytesOf l) = false := by
    have happend := tokensMatch_append h l rest []
    rwa [List.append_nil, tokensMatch_nil h] at happend
  generalize ofTokens (t :: rest) = shape, ofTokens (literals l ++ t :: rest) = shape' at hbehind
  cases hbehind with
  | whole hne =>
    simp only [Shape.matches, bytesOf_append]
    simpa using bytesOf_ne_nil hne
  | @below text hne =>
    simp only [Shape.matches, bytesOf_append]
    rw [Bool.eq_false_iff, ne_eq, List.isPrefixOf_iff_prefix]
    intro hprefix
    have hlength := hprefix.length_le
    rw [List.length_append] at hlength
    exact bytesOf_ne_nil hne (List.length_eq_zero_iff.1 (by omega))
  | withExtension text => simp only [Shape.matches, htokens, Bool.and_false]
  | general => exact htokens

/-! ## Patterns behind plain text -/

theorem isOk_map {ε α β : Type} (f : α → β) (x : Except ε α) : (x.map f).isOk = x.isOk := by
  cases x <;> rfl

/-- Whether a pattern can be used and matches a path. -/
def accepts (pattern path : List Char) : Bool :=
  match parse (String.ofList pattern) with
  | .ok tokens => (Shape.ofTokens tokens).matches (bytesOf path)
  | .error _ => false

section Plain

variable {l : List Char} (h : ∀ c ∈ l, c ∉ wildcards)
include h

/-- Plain text in front of a slash does not decide whether a pattern can be used. -/
theorem parse_append_isOk (s : List Char) :
    (parse (String.ofList (l ++ '/' :: s))).isOk = (parse (String.ofList ('/' :: s))).isOk := by
  rw [parse_append h, isOk_map]

/-- Plain text in front of the slashes that a pattern and a path go on with does not count. -/
theorem accepts_append (s path : List Char) :
    accepts (l ++ '/' :: s) (l ++ '/' :: path) = accepts ('/' :: s) ('/' :: path) := by
  unfold accepts
  rw [parse_append h]
  cases hs : parse (String.ofList ('/' :: s)) with
  | error f => rfl
  | ok tokens =>
    obtain ⟨t, rest, rfl, ht⟩ := exists_of_parse_slash hs
    have hslash : (47 : UInt8) ∈ bytesOf ('/' :: path) := by
      rw [bytesOf_cons]
      exact List.mem_append_left _ (by decide)
    rw [bytesOf_append]
    exact Shape.matches_append ht l rest hslash

theorem not_accepts (s : List Char) : accepts (l ++ '/' :: s) l = false := by
  unfold accepts
  rw [parse_append h]
  cases hs : parse (String.ofList ('/' :: s)) with
  | error f => rfl
  | ok tokens =>
    obtain ⟨t, rest, rfl, ht⟩ := exists_of_parse_slash hs
    exact Shape.not_matches ht l rest

/-- Plain text matches itself only. -/
theorem accepts_plain (hne : l ≠ []) (path : List Char) :
    accepts l path = decide (path = l) := by
  have hshape : Shape.ofTokens (literals l) = .whole l := by
    obtain ⟨c, rest, rfl⟩ := List.exists_cons_of_ne_nil hne
    have hlit := literals?_append (c :: rest) []
    rw [List.append_nil] at hlit
    rw [Shape.ofTokens_of_ne (by simp [literals]),
      plainShape_of_literals (hlit.trans (by simp [literals?])) hne]
  unfold accepts
  rw [parse_plain h]
  simp only [hshape, Shape.matches]
  rw [Bool.eq_iff_iff, beq_iff_eq, bytesOf_inj, decide_eq_true_iff]

end Plain

end ShaderModules.Glob
