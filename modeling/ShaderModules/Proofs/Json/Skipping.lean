import ShaderModules.Json.Skip
import ShaderModules.Proofs.Json.Literal

/-!
# Skipping values

A value of the grammar is passed over exactly, whatever its depth and whatever follows it
(`skips_value`). The scanner keeps the open brackets in a list, and inside any open brackets a value
is one step from its start to its end: this carries the induction, and no depth is too deep.

* `skipSpace_starts`: white space in front of a value is passed over, and nothing of the value.
* `skipString_literal`, `skipScalar_number`: literals and numbers are passed over.
* `skipFrom_start`, `skipFrom_behind`: the scanner at the start of a value and behind one.
* `skips_bracket`: a list or an object is passed over once its values are.
-/

namespace ShaderModules.Json.Grammar

/-! ## White space and delimiters -/

theorem mem_delimiters_of_isSpace {c : Char} {s : List Char} (h : IsSpace s) (hc : c ∈ s) :
    c ∈ delimiters := by
  rcases h c hc with rfl | rfl | rfl | rfl <;> decide

theorem skipSpace_append {w : List Char} (h : IsSpace w) (s : List Char) :
    skipSpace (w ++ s) = skipSpace s := by
  refine List.dropWhile_append_of_pos fun c hc => ?_
  rcases h c hc with rfl | rfl | rfl | rfl <;> rfl

theorem skipSpace_cons {c : Char} (h : ¬ IsSpace [c]) (s : List Char) :
    skipSpace (c :: s) = c :: s := by
  refine List.dropWhile_cons_of_neg fun hc => h fun d hd => ?_
  rw [List.mem_singleton.1 hd]
  simpa [or_assoc] using hc

theorem not_isSpace_of_notMem {c : Char} (h : c ∉ delimiters) : ¬ IsSpace [c] :=
  fun hc => h (mem_delimiters_of_isSpace hc List.mem_cons_self)

theorem isSpace_nil : IsSpace [] := fun _ hc => absurd hc List.not_mem_nil

/-- White space in front of a value is passed over, and nothing of the value. -/
theorem skipSpace_starts {w v : List Char} (hw : IsSpace w) (hv : Starts v) :
    skipSpace (w ++ v) = v := by
  obtain ⟨c, rest, rfl, hc⟩ := hv
  rw [skipSpace_append hw, skipSpace_cons (not_isSpace_of_notMem hc)]

theorem Starts.append {v : List Char} (h : Starts v) (r : List Char) : Starts (v ++ r) := by
  obtain ⟨c, rest, rfl, hc⟩ := h
  exact ⟨c, rest ++ r, rfl, hc⟩

theorem ends_cons {c : Char} (h : c ∈ delimiters) (s : List Char) : Ends (c :: s) := by
  intro d hd
  cases hd
  exact h

/-- White space may be put in front of what may stand behind a value. -/
theorem Ends.append {s : List Char} (h : Ends s) {w : List Char} (hw : IsSpace w) :
    Ends (w ++ s) := by
  cases w with
  | nil => exact h
  | cons c w => exact ends_cons (mem_delimiters_of_isSpace hw List.mem_cons_self) _

/-! ## Literals -/

theorem escapeValue?_isSome {letter : Char} (h : letter ∈ escapeLetters) :
    letter ≠ 'u' ∧ (escapeValue? letter).isSome = true := by
  have key : escapeLetters.all fun c => c ≠ 'u' && (escapeValue? c).isSome := by decide
  simpa using List.all_eq_true.1 key letter h

/-- The step of the scanner over an escape. -/
theorem skipString_escape {s r : List Char} (h : skipEscape s = .ok r) :
    skipString ('\\' :: s) = skipString r := by
  rw [skipString, if_neg (by decide), if_pos rfl]
  split
  · rename_i heq
    rw [h] at heq
    cases heq
    rfl
  · rename_i heq
    rw [h] at heq
    cases heq

theorem skipString_literal {body : List Char} (h : IsLiteral body) (r : List Char) :
    skipString (body ++ '"' :: r) = .ok r := by
  induction h with
  | nil => rw [List.nil_append, skipString, if_pos rfl]
  | plain h₁ h₂ h₃ _ ih =>
    rw [List.cons_append, skipString, if_neg h₁, if_neg h₂, if_neg (Nat.not_lt.2 h₃)]
    exact ih
  | @escape letter body hl _ ih =>
    obtain ⟨hu, hsome⟩ := escapeValue?_isSome hl
    have hskip : skipEscape (letter :: (body ++ '"' :: r)) = .ok (body ++ '"' :: r) := by
      unfold skipEscape
      split
      · rename_i heq
        cases heq
      · rename_i heq
        cases heq
        exact absurd rfl hu
      · rename_i heq
        cases heq
        rw [if_pos hsome]
    rw [List.cons_append, List.cons_append, skipString_escape hskip]
    exact ih
  | @unit digits body n hn _ ih =>
    have hskip : skipEscape ('u' :: (digits ++ (body ++ '"' :: r))) = .ok (body ++ '"' :: r) := by
      rw [skipEscape, readHex_unit hn]
      rfl
    rw [List.cons_append, List.cons_append, List.append_assoc, skipString_escape hskip]
    exact ih

/-! ## Numbers -/

theorem not_isDigit_of_mem {c : Char} (h : c ∈ delimiters) : c.isDigit = false := by
  have key : delimiters.all fun c => !c.isDigit := by decide
  simpa using List.all_eq_true.1 key c h

theorem ne_of_isDigit {c d : Char} (hc : c.isDigit = true) (hd : d.isDigit = false) : c ≠ d := by
  rintro rfl
  rw [hc] at hd
  cases hd

theorem skipDigits_append {digits r : List Char} (h : ∀ c ∈ digits, c.isDigit = true)
    (hr : ∀ c ∈ r.head?, c.isDigit = false) : skipDigits (digits ++ r) = r := by
  unfold skipDigits
  rw [List.dropWhile_append_of_pos h]
  cases r with
  | nil => rfl
  | cons c r => exact List.dropWhile_cons_of_neg (by rw [hr c rfl]; decide)

theorem skipExponent_append {sign digits r : List Char}
    (hsign : sign = [] ∨ sign = ['+'] ∨ sign = ['-']) (hdigits : IsDigits digits) (hr : Ends r) :
    skipExponent (sign ++ (digits ++ r)) = .ok r := by
  obtain ⟨hne, hall⟩ := hdigits
  obtain ⟨c, rest, rfl⟩ := List.exists_cons_of_ne_nil hne
  have hc : c.isDigit = true := hall c List.mem_cons_self
  have hskip : skipDigits (rest ++ r) = r := skipDigits_append
    (fun d hd => hall d (List.mem_cons_of_mem _ hd)) fun d hd => not_isDigit_of_mem (hr d hd)
  rcases hsign with rfl | rfl | rfl
  · have hplus : c ≠ '+' := ne_of_isDigit hc rfl
    have hminus : c ≠ '-' := ne_of_isDigit hc rfl
    simp [skipExponent, hc, hskip, hplus, hminus]
  · simp [skipExponent, hc, hskip]
  · simp [skipExponent, hc, hskip]

theorem skipScale_append {exponent r : List Char} (h : IsExponent exponent) (hr : Ends r) :
    skipScale (exponent ++ r) = .ok r := by
  rcases h with rfl | ⟨letter, sign, digits, hletter, hsign, hdigits, rfl⟩
  · cases r with
    | nil => rfl
    | cons c r =>
      have key : delimiters.all fun c => !(c == 'e' || c == 'E') := by decide
      have hc : (c == 'e' || c == 'E') = false := by
        simpa using List.all_eq_true.1 key c (hr c rfl)
      rw [List.nil_append, skipScale, hc]
      rfl
  · rw [List.cons_append, List.append_assoc, skipScale]
    rw [if_pos (by rcases hletter with rfl | rfl <;> rfl)]
    exact skipExponent_append hsign hdigits hr

/-- An exponent, or what stands behind a number, starts neither with a point nor with a digit. -/
theorem head?_exponent {exponent r : List Char} (h : IsExponent exponent) (hr : Ends r) :
    ∀ c ∈ (exponent ++ r).head?, c ≠ '.' ∧ c.isDigit = false := by
  intro c hc
  rcases h with rfl | ⟨letter, sign, digits, hletter, -, -, rfl⟩
  · have hmem : c ∈ delimiters := hr c hc
    have hpoint : '.' ∉ delimiters := by decide
    exact ⟨fun h => hpoint (h ▸ hmem), not_isDigit_of_mem hmem⟩
  · cases hc
    rcases hletter with rfl | rfl <;> decide

theorem skipAfterWhole_append {fraction exponent r : List Char} (hf : IsFraction fraction)
    (he : IsExponent exponent) (hr : Ends r) :
    skipAfterWhole (fraction ++ (exponent ++ r)) = .ok r := by
  have hhead := head?_exponent he hr
  rcases hf with rfl | ⟨digits, ⟨hne, hall⟩, rfl⟩
  · have hscale := skipScale_append he hr
    unfold skipAfterWhole
    split
    · rename_i heq
      rw [List.nil_append] at heq
      rw [heq] at hhead
      exact absurd rfl (hhead '.' rfl).1
    · exact hscale
  · obtain ⟨d, rest, rfl⟩ := List.exists_cons_of_ne_nil hne
    have hskip := skipDigits_append hall fun c hc => (hhead c hc).2
    rw [List.cons_append, List.cons_append]
    rw [List.cons_append] at hskip
    simp only [skipAfterWhole]
    rw [if_pos (hall d List.mem_cons_self), hskip]
    exact skipScale_append he hr

theorem skipNumber_append {whole fraction exponent r : List Char} (hw : IsWhole whole)
    (hf : IsFraction fraction) (he : IsExponent exponent) (hr : Ends r) :
    skipNumber (whole ++ (fraction ++ (exponent ++ r))) = .ok r := by
  have hafter := skipAfterWhole_append hf he hr
  have hhead : ∀ c ∈ (fraction ++ (exponent ++ r)).head?, c.isDigit = false := by
    intro c hc
    rcases hf with rfl | ⟨digits, -, rfl⟩
    · exact (head?_exponent he hr c hc).2
    · cases hc
      rfl
  generalize fraction ++ (exponent ++ r) = s at hafter hhead
  rcases hw with rfl | ⟨⟨hne, hall⟩, hzero⟩
  · cases s with
    | nil => exact hafter
    | cons c s =>
      have hc := hhead c rfl
      simp only [List.cons_append, List.nil_append, skipNumber, beq_self_eq_true, if_true, hc]
      exact hafter
  · obtain ⟨d, rest, rfl⟩ := List.exists_cons_of_ne_nil hne
    have hd : (d == '0') = false := by simpa using hzero
    have hskip := skipDigits_append (fun c hc => hall c (List.mem_cons_of_mem _ hc)) hhead
    simp only [List.cons_append, skipNumber, hd, hall d List.mem_cons_self, hskip]
    exact hafter

theorem exists_digit_of_isWhole {whole : List Char} (h : IsWhole whole) :
    ∃ d rest, whole = d :: rest ∧ d.isDigit = true := by
  rcases h with rfl | ⟨⟨hne, hall⟩, -⟩
  · exact ⟨'0', [], rfl, rfl⟩
  · obtain ⟨d, rest, rfl⟩ := List.exists_cons_of_ne_nil hne
    exact ⟨d, rest, rfl, hall d List.mem_cons_self⟩

/-- A number is passed over, if what follows may stand behind a value. -/
theorem skipScalar_number {s r : List Char} (h : IsNumber s) (hr : Ends r) :
    skipScalar (s ++ r) = .ok r := by
  obtain ⟨sign, whole, fraction, exponent, hsign, hw, hf, he, rfl⟩ := h
  have hskip := skipNumber_append hw hf he hr
  obtain ⟨d, rest, rfl, hd⟩ := exists_digit_of_isWhole hw
  rcases hsign with rfl | rfl
  · rw [List.nil_append, List.append_assoc, List.append_assoc, List.cons_append]
    rw [List.cons_append] at hskip
    unfold skipScalar
    dsimp only
    rw [if_neg (ne_of_isDigit hd rfl), if_neg (ne_of_isDigit hd rfl),
      if_neg (ne_of_isDigit hd rfl), if_neg (ne_of_isDigit hd rfl),
      if_neg (ne_of_isDigit hd rfl), if_pos hd]
    exact hskip
  · simpa [skipScalar] using hskip

/-! ## How values start -/

theorem IsNumber.exists_cons {s : List Char} (h : IsNumber s) :
    ∃ c rest, s = c :: rest ∧ c ∉ delimiters ∧ Bracket.opened? c = none := by
  obtain ⟨sign, whole, fraction, exponent, hsign, hw, -, -, rfl⟩ := h
  obtain ⟨d, rest, rfl, hd⟩ := exists_digit_of_isWhole hw
  rcases hsign with rfl | rfl
  · refine ⟨d, _, rfl, fun hmem => ?_, ?_⟩
    · rw [not_isDigit_of_mem hmem] at hd
      cases hd
    · rw [Bracket.opened?, if_neg (ne_of_isDigit hd rfl), if_neg (ne_of_isDigit hd rfl)]
  · exact ⟨'-', _, rfl, by decide, rfl⟩

theorem IsValue.starts {v : List Char} (h : IsValue v) : Starts v := by
  cases h with
  | null => exact ⟨'n', _, rfl, by decide⟩
  | yes => exact ⟨'t', _, rfl, by decide⟩
  | no => exact ⟨'f', _, rfl, by decide⟩
  | number h =>
    obtain ⟨c, rest, rfl, hc, -⟩ := h.exists_cons
    exact ⟨c, rest, rfl, hc⟩
  | literal _ => exact ⟨'"', _, rfl, by decide⟩
  | list => exact ⟨'[', _, rfl, by decide⟩
  | object => exact ⟨'\x7b', _, rfl, by decide⟩

/-! ## Steps between values -/

/-- The scanner at the start of a value. -/
theorem skipFrom_start (opened : List Bracket) (s : List Char) :
    skipFrom true opened s =
      match skipSpace s with
      | [] => .error (.here .endInValue [])
      | c :: r =>
        match Bracket.opened? c with
        | some b =>
          match skipSpace r with
          | [] => .error b.ended
          | d :: r' =>
            if d = b.closing then skipFrom false opened r'
            else (b.skipLabel (d :: r')).bind (skipFrom true (b :: opened))
        | none => (skipScalar (c :: r)).bind (skipFrom false opened) := by
  rw [skipFrom.eq_def, if_pos rfl]
  split
  · rename_i hs
    rw [hs]
  · rename_i c r hs
    rw [hs]
    dsimp only
    cases Bracket.opened? c with
    | some b =>
      dsimp only
      split
      · rename_i hr
        rw [hr]
      · rename_i d r' hr
        rw [hr]
        dsimp only
        by_cases hd : d = b.closing
        · rw [if_pos hd, if_pos hd]
        · rw [if_neg hd, if_neg hd]
          split <;> rename_i hl <;> rw [hl] <;> rfl
    | none =>
      dsimp only
      split <;> rename_i hc <;> rw [hc] <;> rfl

/-- The scanner behind a value, inside a bracket. -/
theorem skipFrom_behind (b : Bracket) (outer : List Bracket) (s : List Char) :
    skipFrom false (b :: outer) s =
      match skipSpace s with
      | [] => .error b.ended
      | c :: r =>
        if c = ',' then (b.skipLabel r).bind (skipFrom true (b :: outer))
        else if c = b.closing then skipFrom false outer r
        else .error (b.unclosed (c :: r)) := by
  rw [skipFrom.eq_def, if_neg (by decide)]
  dsimp only
  split
  · rename_i hs
    rw [hs]
  · rename_i c r hs
    rw [hs]
    dsimp only
    by_cases hc : c = ','
    · rw [if_pos hc, if_pos hc]
      split <;> rename_i hl <;> rw [hl] <;> rfl
    · rw [if_neg hc, if_neg hc]

section Steps

variable {w : List Char} (hw : IsSpace w) (opened : List Bracket)

include hw

/-- A value without brackets is passed over at once. -/
theorem skipFrom_scalar {c : Char} {s r : List Char} (hc : c ∉ delimiters)
    (hnone : Bracket.opened? c = none) (h : skipScalar (c :: s) = .ok r) :
    skipFrom true opened (w ++ c :: s) = skipFrom false opened r := by
  rw [skipFrom_start, skipSpace_starts hw ⟨c, s, rfl, hc⟩]
  simp only [hnone, h, Except.bind]

/-- A bracket that is closed at once is passed over. -/
theorem skipFrom_empty {c : Char} {b : Bracket} {s r : List Char} (hc : c ∉ delimiters)
    (hsome : Bracket.opened? c = some b) (hs : skipSpace s = b.closing :: r) :
    skipFrom true opened (w ++ c :: s) = skipFrom false opened r := by
  rw [skipFrom_start, skipSpace_starts hw ⟨c, s, rfl, hc⟩]
  simp only [hsome, hs, if_true]

/-- Behind an opening bracket the first value starts. -/
theorem skipFrom_open {c d : Char} {b : Bracket} {s r r' : List Char} (hc : c ∉ delimiters)
    (hsome : Bracket.opened? c = some b) (hs : skipSpace s = d :: r) (hd : d ≠ b.closing)
    (hl : b.skipLabel (d :: r) = .ok r') :
    skipFrom true opened (w ++ c :: s) = skipFrom true (b :: opened) r' := by
  rw [skipFrom_start, skipSpace_starts hw ⟨c, s, rfl, hc⟩]
  simp only [hsome, hs, if_neg hd, hl, Except.bind]

theorem skipFrom_comma {b : Bracket} {s r : List Char} (h : b.skipLabel s = .ok r) :
    skipFrom false (b :: opened) (w ++ ',' :: s) = skipFrom true (b :: opened) r := by
  rw [skipFrom_behind, skipSpace_append hw, skipSpace_cons (by decide)]
  simp only [if_true, h, Except.bind]

theorem skipFrom_close (b : Bracket) (r : List Char) :
    skipFrom false (b :: opened) (w ++ b.closing :: r) = skipFrom false opened r := by
  have hspace : ¬ IsSpace [b.closing] := by cases b <;> decide
  have hcomma : b.closing ≠ ',' := by cases b <;> decide
  rw [skipFrom_behind, skipSpace_append hw, skipSpace_cons hspace]
  simp only [if_neg hcomma, if_true]

end Steps

/-! ## Whole values -/

/-- The value is passed over from anywhere, behind white space and inside any open brackets. -/
def Skips (v : List Char) : Prop :=
  ∀ (w : List Char) (opened : List Bracket) (r : List Char), IsSpace w → Ends r →
    skipFrom true opened (w ++ (v ++ r)) = skipFrom false opened r

/-- Passes over an item once its value is passed over. -/
theorem Skips.item {i : Item} (h : Skips i.value) (hi : i.Spaced) (opened : List Bracket)
    {r : List Char} (hr : Ends r) :
    skipFrom true opened (i.text ++ r) = skipFrom false opened (i.after ++ r) := by
  rw [Item.text, List.append_assoc, List.append_assoc]
  exact h i.before opened (i.after ++ r) hi.1 (hr.append hi.2)

/-- A part of a list or an object: an item with the label in front of it. -/
abbrev Part := List Char × Item

/-- An item of a list as a part. -/
def Item.part (i : Item) : Part := ([], i)

/-- A member of an object as a part. -/
def Member.part (m : Member) : Part := (m.label, m.item)

/-- The text of a part. -/
def partText (p : Part) : List Char := p.1 ++ p.2.text

/-- The text of the parts behind the first one. -/
def restText (parts : List Part) : List Char := parts.flatMap fun p => ',' :: partText p

theorem restText_cons (p : Part) (parts : List Part) :
    restText (p :: parts) = ',' :: (p.1 ++ (p.2.text ++ restText parts)) := by
  rw [restText, List.flatMap_cons, partText, List.cons_append, List.append_assoc, restText]

theorem commas_parts (p : Part) (parts : List Part) :
    commas ((p :: parts).map partText) = p.1 ++ (p.2.text ++ restText parts) := by
  rw [List.map_cons, commas, List.flatMap_map, partText, List.append_assoc, restText]

theorem listText_eq (space : List Char) (items : List Item) : listText space items =
    '[' :: (space ++ (commas ((items.map Item.part).map partText) ++ [']'])) := by
  rw [List.map_map]
  rfl

theorem objectText_eq (space : List Char) (members : List Member) : objectText space members =
    '\x7b' :: (space ++ (commas ((members.map Member.part).map partText) ++ ['\x7d'])) := by
  rw [List.map_map]
  rfl

/-- What follows a part may stand behind a value. -/
theorem ends_restText (b : Bracket) (parts : List Part) (r : List Char) :
    Ends (restText parts ++ b.closing :: r) := by
  cases parts with
  | nil => exact ends_cons (by cases b <;> decide) r
  | cons p parts => exact ends_cons (by decide) _

section Parts

variable {b : Bracket} {parts : List Part}
  (hlabel : ∀ p ∈ parts, ∀ s, b.skipLabel (p.1 ++ s) = .ok s)
  (hspaced : ∀ p ∈ parts, p.2.Spaced) (hskips : ∀ p ∈ parts, Skips p.2.value)

include hlabel hspaced hskips

/-- The parts behind the first one are passed over, with the closing bracket. -/
theorem skipFrom_restText {w : List Char} (hw : IsSpace w) (opened : List Bracket)
    (r : List Char) :
    skipFrom false (b :: opened) (w ++ (restText parts ++ b.closing :: r)) =
      skipFrom false opened r := by
  induction parts generalizing w with
  | nil => exact skipFrom_close hw opened b r
  | cons p parts ih =>
    obtain ⟨hl, hlabel⟩ := List.forall_mem_cons.1 hlabel
    obtain ⟨hi, hspaced⟩ := List.forall_mem_cons.1 hspaced
    obtain ⟨hv, hskips⟩ := List.forall_mem_cons.1 hskips
    rw [restText_cons, List.cons_append, List.append_assoc, List.append_assoc,
      skipFrom_comma hw opened (hl _), hv.item hi _ (ends_restText b parts r)]
    exact ih hlabel hspaced hskips hi.2

/-- A list or an object is passed over once its values are. Its first part stands behind the
opening bracket, where white space has been passed over already. -/
theorem skips_bracket {c : Char} (hc : c ∉ delimiters) (hsome : Bracket.opened? c = some b)
    {space : List Char} (hspace : IsSpace space)
    (hfirst : ∀ p ∈ parts, ∀ s, ∃ d rest w, skipSpace (space ++ (partText p ++ s)) = d :: rest ∧
      d ≠ b.closing ∧ IsSpace w ∧
      b.skipLabel (d :: rest) = .ok (w ++ (p.2.value ++ (p.2.after ++ s)))) :
    Skips (c :: (space ++ (commas (parts.map partText) ++ [b.closing]))) := by
  intro w opened r hw hr
  rw [List.cons_append]
  cases parts with
  | nil =>
    refine skipFrom_empty hw opened hc hsome ?_
    rw [List.append_assoc, skipSpace_append hspace]
    exact skipSpace_cons (by cases b <;> decide) r
  | cons p parts =>
    obtain ⟨d, rest, w', hskip, hd, hw', hl⟩ :=
      hfirst p List.mem_cons_self (restText parts ++ b.closing :: r)
    have htext : space ++ (commas ((p :: parts).map partText) ++ [b.closing]) ++ r =
        space ++ (partText p ++ (restText parts ++ b.closing :: r)) := by
      rw [commas_parts, partText]
      simp only [List.append_assoc, List.singleton_append]
    have hends := ends_restText b parts r
    rw [htext, skipFrom_open hw opened hc hsome hskip hd hl,
      hskips p List.mem_cons_self w' _ _ hw' (hends.append (hspaced p List.mem_cons_self).2)]
    exact skipFrom_restText (fun q hq => hlabel q (List.mem_cons_of_mem p hq))
      (fun q hq => hspaced q (List.mem_cons_of_mem p hq))
      (fun q hq => hskips q (List.mem_cons_of_mem p hq)) (hspaced p List.mem_cons_self).2 opened r

end Parts

/-! ## Keys -/

/-- In front of a label, white space is passed over up to its quotation mark. -/
theorem skipSpace_label {m : Member} (hm : m.Spaced) {w : List Char} (hw : IsSpace w)
    (s : List Char) : skipSpace (w ++ (m.label ++ s)) =
      '"' :: (m.key ++ '"' :: (m.after ++ ':' :: s)) := by
  rw [skipSpace_append hw, Member.label, List.append_assoc, skipSpace_append hm.1]
  simp only [List.cons_append, List.append_assoc, List.nil_append]
  exact skipSpace_cons (by decide) _

theorem skipKey_label {m : Member} (hm : m.Spaced) (hkey : IsLiteral m.key) {t s : List Char}
    (ht : skipSpace t = '"' :: (m.key ++ '"' :: (m.after ++ ':' :: s))) :
    skipKey t = .ok s := by
  have hcolon : skipSpace (m.after ++ ':' :: s) = ':' :: s := by
    rw [skipSpace_append hm.2.1, skipSpace_cons (by decide)]
  unfold skipKey
  rw [ht]
  simp only [skipString_literal hkey, hcolon]

/-- **A value is passed over exactly**, whatever its depth. -/
theorem skips_value {v : List Char} (h : IsValue v) : Skips v := by
  induction h with
  | null => exact fun w opened r hw _ => skipFrom_scalar hw opened (by decide) rfl rfl
  | yes => exact fun w opened r hw _ => skipFrom_scalar hw opened (by decide) rfl rfl
  | no => exact fun w opened r hw _ => skipFrom_scalar hw opened (by decide) rfl rfl
  | number hs =>
    intro w opened r hw hr
    have hskip := skipScalar_number hs hr
    obtain ⟨c, rest, rfl, hc, hnone⟩ := hs.exists_cons
    exact skipFrom_scalar hw opened hc hnone hskip
  | literal hbody =>
    intro w opened r hw _
    rw [List.cons_append, List.append_assoc]
    exact skipFrom_scalar hw opened (by decide) rfl (skipString_literal hbody r)
  | @list space items hspace hspaced hvalues ih =>
    rw [listText_eq]
    -- an item has no label, and behind the opening bracket its white space is gone
    refine skips_bracket (b := .list) ?_ ?_ ?_ (by decide) rfl hspace ?_
    all_goals
      intro p hp
      obtain ⟨i, hi, rfl⟩ := List.mem_map.1 hp
    · exact fun s => rfl
    · exact hspaced i hi
    · exact ih i hi
    · intro s
      have hstarts := (hvalues i hi).starts
      have hskip : skipSpace (space ++ (i.text ++ s)) = i.value ++ (i.after ++ s) := by
        rw [skipSpace_append hspace, Item.text, List.append_assoc, List.append_assoc]
        exact skipSpace_starts (hspaced i hi).1 (hstarts.append _)
      obtain ⟨c, rest, hv, hc⟩ := hstarts
      rw [hv, List.cons_append] at hskip
      refine ⟨c, _, [], hskip, fun h => hc (h ▸ by decide), isSpace_nil, ?_⟩
      rw [Item.part, hv]
      rfl
  | @object space members hspace hspaced hkeys hvalues ih =>
    rw [objectText_eq]
    -- the label of a member is its key with the colon
    refine skips_bracket (b := .object) ?_ ?_ ?_ (by decide) rfl hspace ?_
    all_goals
      intro p hp
      obtain ⟨m, hm, rfl⟩ := List.mem_map.1 hp
    · exact fun s => skipKey_label (hspaced m hm) (hkeys m hm)
        (skipSpace_label (hspaced m hm) isSpace_nil s)
    · exact (hspaced m hm).2.2
    · exact ih m hm
    · intro s
      have hpart : partText m.part ++ s =
          m.label ++ (m.item.before ++ (m.item.value ++ (m.item.after ++ s))) := by
        simp only [partText, Member.part, Item.text, List.append_assoc]
      rw [hpart]
      refine ⟨'"', _, m.item.before, skipSpace_label (hspaced m hm) hspace _, by decide,
        (hspaced m hm).2.2.1, ?_⟩
      exact skipKey_label (hspaced m hm) (hkeys m hm) (skipSpace_cons (by decide) _)

theorem skipValue_item {i : Item} (hi : i.Spaced) (hv : IsValue i.value) {r : List Char}
    (hr : Ends r) : skipValue (i.text ++ r) = .ok (i.after ++ r) := by
  rw [skipValue, (skips_value hv).item hi [] hr, skipFrom.eq_def]
  rfl

end ShaderModules.Json.Grammar
