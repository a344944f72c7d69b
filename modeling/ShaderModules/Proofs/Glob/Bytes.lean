import ShaderModules.Proofs.Glob.Matching
import ShaderModules.Proofs.Path.Segments

/-!
# Texts and their bytes

Patterns are matched byte by byte, while patterns and paths are texts. A piece of the bytes of a
text that spells a text by itself is a piece of the text: at the front, because the bytes of a
character tell where they end (`exists_of_bytesOf_append`), and at the end, because no byte inside a
character can be the first one of another (`exists_of_append_bytesOf`). A character of a single byte
is where this byte is (`mem_bytesOf_iff`), so the last segment of a path and its extension can be
read off the text (`lastSegment_bytesOf`, `hasExtension_iff`).
-/

namespace ShaderModules.Glob

open ShaderModules.Path

/-! ## Pieces -/

/-- The bytes of a text go on after the bytes of its first characters with those of the others. -/
theorem exists_of_bytesOf_append {l p : List Char} {s : List UInt8}
    (h : bytesOf p ++ s = bytesOf l) : ∃ r, l = p ++ r ∧ bytesOf r = s := by
  have hbytes : p.utf8Encode ++ ⟨s.toArray⟩ = l.utf8Encode := by
    refine ByteArray.ext (Array.toList_inj.1 ?_)
    simpa [bytesOf] using h
  obtain ⟨r, rfl⟩ := List.isPrefix_of_utf8Encode_append_eq_utf8Encode _ hbytes
  rw [bytesOf_append, List.append_cancel_left_eq] at h
  exact ⟨r, rfl, h.symm⟩

theorem bytesOf_prefix_iff {p l : List Char} : bytesOf p <+: bytesOf l ↔ p <+: l := by
  constructor
  · rintro ⟨s, hs⟩
    obtain ⟨r, rfl, -⟩ := exists_of_bytesOf_append hs
    exact List.prefix_append p r
  · rintro ⟨r, rfl⟩
    rw [bytesOf_append]
    exact List.prefix_append _ _

/-- The first byte of a character, and only it, can be the first byte of a character. -/
theorem exists_charBytes (c : Char) : ∃ b rest, charBytes c = b :: rest ∧ b.IsUTF8FirstByte ∧
    ∀ r ∈ rest, ¬ r.IsUTF8FirstByte := by
  have hencode : charBytes c = String.utf8EncodeChar c := by
    simp [charBytes, bytesOf, List.utf8Encode_singleton]
  rw [hencode]
  cases hbytes : String.utf8EncodeChar c with
  | nil => exact absurd hbytes String.utf8EncodeChar_ne_nil
  | cons b rest =>
    have hfirst : ∀ i (hi : i < (b :: rest).length), (b :: rest)[i].IsUTF8FirstByte ↔ i = 0 := by
      rw [← hbytes]
      exact fun i hi => UInt8.isUTF8FirstByte_getElem_utf8EncodeChar
    refine ⟨b, rest, rfl, (hfirst 0 (by simp)).2 rfl, fun r hr hfirstByte => ?_⟩
    obtain ⟨i, hi, rfl⟩ := List.getElem_of_mem hr
    exact absurd ((hfirst (i + 1) (by simpa using hi)).1 hfirstByte) (Nat.succ_ne_zero i)

/-- A character cannot start inside the bytes of another one. -/
theorem not_isUTF8FirstByte_inside {c : Char} {a x : UInt8} {s inside : List UInt8}
    (h : charBytes c = a :: (s ++ x :: inside)) : ¬ x.IsUTF8FirstByte := by
  obtain ⟨b, rest, hc, -, hrest⟩ := exists_charBytes c
  obtain ⟨-, rfl⟩ := List.cons.inj (hc.symm.trans h)
  exact hrest x (by simp)

/-- In front of the bytes of the last characters of a text are the bytes of the others. -/
theorem exists_of_append_bytesOf {l p : List Char} {s : List UInt8}
    (h : s ++ bytesOf p = bytesOf l) : ∃ r, l = r ++ p ∧ bytesOf r = s := by
  cases p with
  | nil => exact ⟨l, by simp, by simpa using h.symm⟩
  | cons d p =>
    obtain ⟨e, more, hd, hfirst, -⟩ := exists_charBytes d
    induction l generalizing s with
    | nil => simp [bytesOf_cons, hd] at h
    | cons c l ih =>
      cases s with
      | nil => exact ⟨[], bytesOf_inj.1 h.symm, rfl⟩
      | cons a s =>
        rw [bytesOf_cons c] at h
        rcases List.append_eq_append_iff.1 h with ⟨inside, hc, htail⟩ | ⟨s', hs, htail⟩
        · cases inside with
          | nil =>
            refine ⟨[c], ?_, hc.trans (List.append_nil _)⟩
            rw [bytesOf_inj.1 htail]
            rfl
          | cons x inside =>
            rw [bytesOf_cons, hd, List.cons_append, List.cons_append] at htail
            obtain ⟨rfl, -⟩ := List.cons.inj htail
            exact absurd hfirst (not_isUTF8FirstByte_inside hc)
        · obtain ⟨r, rfl, hr⟩ := ih htail.symm
          exact ⟨c :: r, rfl, by rw [bytesOf_cons, hr, hs]⟩

/-! ## Characters of one byte -/

theorem mem_bytesOf_iff {a : Char} {b : UInt8} (ha : charBytes a = [b]) {l : List Char} :
    b ∈ bytesOf l ↔ a ∈ l := by
  obtain ⟨b', rest, hb', hfirst, -⟩ := exists_charBytes a
  obtain ⟨rfl, rfl⟩ := List.cons.inj (hb'.symm.trans ha)
  induction l with
  | nil => simp
  | cons c l ih =>
    rw [bytesOf_cons, List.mem_append, List.mem_cons, ih]
    refine or_congr_left ⟨fun hmem => ?_, fun hac => by rw [← hac, ha]; exact List.mem_cons_self⟩
    obtain ⟨e, more, hc, -, hmore⟩ := exists_charBytes c
    rw [hc] at hmem
    rcases List.mem_cons.1 hmem with rfl | hmem
    · have hprefix : bytesOf [a] ++ more = bytesOf [c] := by
        change charBytes a ++ more = charBytes c
        rw [ha, hc]
        rfl
      obtain ⟨r, hr, -⟩ := exists_of_bytesOf_append hprefix
      exact (List.cons.inj hr).1.symm
    · exact absurd hfirst (hmore _ hmem)

theorem slash_mem_bytesOf_iff {l : List Char} : 47 ∈ bytesOf l ↔ '/' ∈ l :=
  mem_bytesOf_iff (by decide)

theorem dot_mem_bytesOf_iff {l : List Char} : 46 ∈ bytesOf l ↔ '.' ∈ l :=
  mem_bytesOf_iff (by decide)

theorem forall_isPlain_iff {l : List Char} : (∀ b ∈ bytesOf l, isPlain b = true) ↔ '/' ∉ l := by
  rw [← slash_mem_bytesOf_iff]
  constructor
  · intro h hmem
    exact absurd (h 47 hmem) (by decide)
  · intro h b hb
    simpa [isPlain] using fun hb' : b = 47 => h (hb' ▸ hb)

/-! ## The last segment and its extension -/

/-- A list with an element, split at the last place where it stands. -/
theorem exists_last_of_mem {α : Type} [DecidableEq α] {a : α} {l : List α} (h : a ∈ l) :
    ∃ front back, l = front ++ a :: back ∧ a ∉ back := by
  obtain ⟨back, front, hsplit, hback⟩ := List.eq_append_cons_of_mem (List.mem_reverse.2 h)
  refine ⟨front.reverse, back.reverse, ?_, fun hmem => hback (List.mem_reverse.1 hmem)⟩
  rw [← List.reverse_inj, hsplit]
  simp

theorem takeWhile_reverse {p : UInt8 → Bool} {s : List UInt8} (h : ∀ b ∈ s, p b = true)
    (front : List UInt8) {b : UInt8} (hb : p b = false) :
    ((front ++ b :: s).reverse.takeWhile p).reverse = s := by
  have hall : ∀ c ∈ s.reverse, p c = true := fun c hc => h c (List.mem_reverse.1 hc)
  rw [List.reverse_append, List.reverse_cons, List.append_assoc, List.takeWhile_append_of_pos hall]
  simp [hb]

/-- The last segment of the bytes is the last segment of the text. -/
theorem lastSegment_bytesOf {l n : List Char} (h : (segments l).getLast? = some n) :
    lastSegment (bytesOf l) = bytesOf n := by
  by_cases hslash : '/' ∈ l
  · obtain ⟨front, back, rfl, hback⟩ := exists_last_of_mem hslash
    rw [segments_append_slash, segments_of_notMem hback, List.getLast?_concat] at h
    obtain rfl := Option.some.inj h
    rw [bytesOf_append, bytesOf_cons]
    exact takeWhile_reverse (forall_isPlain_iff.2 hback) _ (by decide)
  · rw [segments_of_notMem hslash] at h
    obtain rfl : l = n := Option.some.inj h
    have hall := forall_isPlain_iff.2 hslash
    have hself : ((bytesOf l).reverse ++ []).takeWhile isPlain = (bytesOf l).reverse ++ [] :=
      List.takeWhile_append_of_pos fun b hb => hall b (List.mem_reverse.1 hb)
    rw [List.append_nil] at hself
    rw [lastSegment, hself, List.reverse_reverse]

theorem extensionOf_append (front : List UInt8) {s : List UInt8} (h : 46 ∉ s) :
    extensionOf (front ++ 46 :: s) = 46 :: s := by
  have hall : ∀ b ∈ s, (b != 46) = true := fun b hb => by
    simpa using fun hb' : b = 46 => h (hb' ▸ hb)
  rw [extensionOf, if_pos (by simp), takeWhile_reverse hall front (by simp)]

/-- A path has an extension exactly if its last segment ends with it. -/
theorem hasExtension_iff {l n w : List Char} (hn : (segments l).getLast? = some n)
    (hw : '.' ∉ w) : hasExtension (bytesOf l) ('.' :: w) = true ↔ '.' :: w <:+ n := by
  have hbytes : bytesOf ('.' :: w) = 46 :: bytesOf w := bytesOf_cons _ _
  rw [hasExtension, lastSegment_bytesOf hn, beq_iff_eq, hbytes]
  constructor
  · intro h
    by_cases hdot : 46 ∈ bytesOf n
    · obtain ⟨front, back, hsplit, hback⟩ := exists_last_of_mem hdot
      rw [hsplit, extensionOf_append front hback] at h
      rw [h, ← hbytes] at hsplit
      obtain ⟨r, rfl, -⟩ := exists_of_append_bytesOf hsplit.symm
      exact List.suffix_append _ _
    · rw [extensionOf, if_neg (by simpa using hdot)] at h
      cases h
  · rintro ⟨front, rfl⟩
    rw [bytesOf_append, hbytes]
    exact extensionOf_append _ fun hmem => hw (dot_mem_bytesOf_iff.1 hmem)

end ShaderModules.Glob
