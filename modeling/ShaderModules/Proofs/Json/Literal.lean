import ShaderModules.Proofs.Json.Grammar
import ShaderModules.Text.Quoted

/-!
# Reading literals

The reader of a string resolves exactly the escapes that `Spells` describes, up to the closing mark
and no further (`readString_spells`). The written form of a text spells it (`spells_quoteBody`), so
reading undoes writing, whatever follows (`readString_quote`). Hence a written literal shows where
it ends: from a text that starts with it, both the quoted text and the rest can be told
(`quote_append_inj`).
-/

namespace ShaderModules.Json.Grammar

open Text

/-! ## From the grammar to the reader -/

theorem readHex_unit {digits : List Char} {n : ℕ} (h : IsUnit digits n) (r : List Char) :
    readHex (digits ++ r) = .ok (n, r) := by
  cases h with
  | digits ha hb hc hd => simp [readHex, ha, hb, hc, hd]

theorem readEscape_letter {letter c : Char} (h : escapeValue? letter = some c) (r : List Char) :
    readEscape (letter :: r) = .ok (c, r) := by
  unfold readEscape
  split
  · rename_i heq
    cases heq
  · rename_i heq
    cases heq
    cases h
  · rename_i heq
    cases heq
    simp [h]

theorem readEscape_unit {digits : List Char} {n : ℕ} (h : IsUnit digits n)
    (hl : isLeading n = false) (ht : isTrailing n = false) (r : List Char) :
    readEscape ('u' :: (digits ++ r)) = .ok (Char.ofNat n, r) := by
  simp [readEscape, readUnits, readHex_unit h, hl, ht]

theorem readEscape_pair {digits digits' : List Char} {n m : ℕ} (h : IsUnit digits n)
    (hn : isLeading n = true) (h' : IsUnit digits' m) (hm : isTrailing m = true) (r : List Char) :
    readEscape ('u' :: (digits ++ '\\' :: 'u' :: (digits' ++ r))) = .ok (pairedChar n m, r) := by
  have hne : isTrailing n = false := by
    simp only [isLeading, isTrailing, Bool.and_eq_true, decide_eq_true_eq, Bool.and_eq_false_iff,
      decide_eq_false_iff_not] at *
    omega
  simp [readEscape, readUnits, readHex_unit h, readHex_unit h', hn, hm, hne]

/-- The step of the reader over an escape. -/
theorem readStringFrom_escape {s r : List Char} {c : Char} (h : readEscape s = .ok (c, r))
    (read : List Char) : readStringFrom read ('\\' :: s) = readStringFrom (c :: read) r := by
  rw [readStringFrom, if_neg (by decide), if_pos rfl]
  split
  · rename_i heq
    rw [h] at heq
    cases heq
    rfl
  · rename_i heq
    rw [h] at heq
    cases heq

theorem readStringFrom_spells {body text : List Char} (h : Spells body text)
    (read r : List Char) :
    readStringFrom read (body ++ '"' :: r) = .ok (read.reverse ++ text, r) := by
  induction h generalizing read with
  | nil => simp [readStringFrom]
  | plain h₁ h₂ h₃ _ ih =>
    rw [List.cons_append, readStringFrom]
    simp [h₁, h₂, Nat.not_lt.2 h₃, ih]
  | escape hc _ ih =>
    rw [List.cons_append, List.cons_append, readStringFrom_escape (readEscape_letter hc _), ih]
    simp
  | unit hn hl ht _ ih =>
    simp only [List.cons_append, List.append_assoc]
    rw [readStringFrom_escape (readEscape_unit hn hl ht _), ih]
    simp
  | pair hn hl hm ht _ ih =>
    simp only [List.cons_append, List.append_assoc]
    rw [readStringFrom_escape (readEscape_pair hn hl hm ht _), ih]
    simp

/-- A literal is read as the text that it denotes, up to its closing mark. -/
theorem readString_spells {body text : List Char} (h : Spells body text) (r : List Char) :
    readString (body ++ '"' :: r) = .ok (String.ofList text, r) := by
  simp [readString, readStringFrom_spells h, Except.map]

/-! ## Written literals -/

theorem hexValue?_hexDigit (n : ℕ) : hexValue? (hexDigit n) = some (n % 16) := by
  have key : ∀ k < 16, hexValue? (Nat.digitChar k) = some k := by decide
  exact key _ (Nat.mod_lt n (by omega))

/-- The written form of a character denotes it. -/
theorem spells_quoteChar (c : Char) {body text : List Char} (h : Spells body text) :
    Spells (quoteChar c ++ body) (c :: text) := by
  unfold quoteChar
  split
  · exact .escape rfl h
  · exact .escape rfl h
  · exact .escape rfl h
  · exact .escape rfl h
  · exact .escape rfl h
  · exact .escape rfl h
  · exact .escape rfl h
  · rename_i hquote hbackslash _ _ _ _ _
    split
    · rename_i hc
      have hzero : hexValue? '0' = some 0 := rfl
      have hunit := IsUnit.digits hzero hzero (hexValue?_hexDigit (c.toNat / 16))
        (hexValue?_hexDigit c.toNat)
      have hn : ((0 * 16 + 0) * 16 + c.toNat / 16 % 16) * 16 + c.toNat % 16 = c.toNat := by omega
      rw [hn] at hunit
      have hl : isLeading c.toNat = false := by simp [isLeading]; omega
      have ht : isTrailing c.toNat = false := by simp [isTrailing]; omega
      have := Spells.unit hunit hl ht h
      rwa [Char.ofNat_toNat] at this
    · rename_i hc
      exact .plain hquote hbackslash (Nat.not_lt.1 hc) h

theorem spells_quoteBody (s : List Char) : Spells (quoteBody s) s := by
  induction s with
  | nil => exact .nil
  | cons c rest ih => exact spells_quoteChar c ih

/-- **Reading undoes writing**, and stops at the end of what was written. -/
theorem readString_quote (s : String) (r : List Char) :
    readString (quoteBody s.toList ++ '"' :: r) = .ok (s, r) := by
  simp [readString_spells (spells_quoteBody s.toList)]

theorem quote_toList (s : String) : (quote s).toList = '"' :: (quoteBody s.toList ++ ['"']) := by
  simp [quote]

/-- A written literal in front of a text can be told from the text. -/
theorem quote_append_inj {s t : String} {x y : List Char}
    (h : (quote s).toList ++ x = (quote t).toList ++ y) : s = t ∧ x = y := by
  simp only [quote_toList, List.cons_append, List.cons.injEq, List.append_assoc,
    List.nil_append, true_and] at h
  have hs := readString_quote s x
  rw [h, readString_quote t y] at hs
  cases hs
  exact ⟨rfl, rfl⟩

theorem le_of_mem_quoteChar {c d : Char} (h : d ∈ quoteChar c) : 0x20 ≤ d.toNat := by
  have hhex (n : ℕ) : 0x20 ≤ (hexDigit n).toNat := by
    have key : ∀ k < 16, 0x20 ≤ (Nat.digitChar k).toNat := by decide
    exact key _ (Nat.mod_lt n (by omega))
  unfold quoteChar at h
  split at h
  case h_8 =>
    split at h
    · simp only [List.mem_cons, List.not_mem_nil, or_false] at h
      rcases h with rfl | rfl | rfl | rfl | rfl | rfl
      · decide
      · decide
      · decide
      · decide
      · exact hhex _
      · exact hhex _
    · rename_i hc
      rw [List.mem_singleton.1 h]
      exact Nat.not_lt.1 hc
  all_goals
    simp only [List.mem_cons, List.not_mem_nil, or_false] at h
    rcases h with rfl | rfl <;> decide

/-- A written literal holds no control character. -/
theorem le_of_mem_quote {s : String} {c : Char} (h : c ∈ (quote s).toList) : 0x20 ≤ c.toNat := by
  rw [quote_toList, List.mem_cons, List.mem_append, List.mem_singleton] at h
  rcases h with rfl | h | rfl
  · decide
  · obtain ⟨d, -, hd⟩ := List.mem_flatMap.1 h
    exact le_of_mem_quoteChar hd
  · decide

end ShaderModules.Json.Grammar
