import Mathlib.Data.List.Perm.Basic
import ShaderModules.Json.Record
import ShaderModules.Proofs.Json.Skipping

/-!
# Reading lists and records

A reader accepts a text when it reads it as a certain value wherever the text stands, with white
space in front and anything behind it that may stand behind a value (`Accepts`).

* `accepts_literal`, `accepts_quote`: a literal is read as its text.
* `accepts_list`: a list is accepted if its items are.
* `accepts_fields`, `accepts_record`: a record is accepted if its fields are, in any order and among
  members of other names; a field may be absent unless it is required. Each member has an effect on
  what has been read so far (`HasEffect`), and the effects of different fields commute.
* `accepts_option`, `accepts_optional`: an optional value that is there, or may be `null`.
* `parseChars_accepts`: a whole text.
-/

namespace ShaderModules.Json.Grammar

variable {α β : Type}

theorem isSpace_append {w w' : List Char} (hw : IsSpace w) (hw' : IsSpace w') :
    IsSpace (w ++ w') := List.forall_mem_append.2 ⟨hw, hw'⟩

/-- The reader reads the text as `a`, wherever it stands. -/
def Accepts (p : Reader α) (v : List Char) (a : α) : Prop :=
  ∀ w r, IsSpace w → Ends r → p.run (w ++ (v ++ r)) = .ok (a, r)

/-- An accepted item is read up to the white space behind it. -/
theorem Accepts.item {p : Reader α} {i : Item} {a : α} (h : Accepts p i.value a) (hi : i.Spaced)
    {r : List Char} (hr : Ends r) : p.run (i.text ++ r) = .ok (a, i.after ++ r) := by
  rw [Item.text, List.append_assoc, List.append_assoc]
  exact h i.before (i.after ++ r) hi.1 (hr.append hi.2)

theorem Accepts.map {p : Reader α} {v : List Char} {a : α} (h : Accepts p v a) (f : α → β) :
    Accepts (f <$> p) v (f a) := by
  intro w r hw hr
  have hp := h w r hw hr
  change (p.run (w ++ (v ++ r))).map (fun x => (f x.1, x.2)) = _
  rw [hp]
  rfl

theorem accepts_literal {body : List Char} {s : String} (h : Spells body s.toList) :
    Accepts Reader.text ('"' :: (body ++ ['"'])) s := by
  intro w r hw _
  have hskip : skipSpace (w ++ ('"' :: (body ++ ['"']) ++ r)) = '"' :: (body ++ '"' :: r) := by
    rw [skipSpace_append hw, List.cons_append, skipSpace_cons (by decide), List.append_assoc]
    rfl
  change readText "a string" _ = _
  unfold readText
  rw [hskip]
  exact (readString_spells h r).trans (by rw [String.ofList_toList])

theorem accepts_quote (s : String) : Accepts Reader.text (Text.quote s).toList s := by
  rw [quote_toList]
  exact accepts_literal (spells_quoteBody s.toList)

/-! ## Lists -/

theorem nextItem_close {w : List Char} (hw : IsSpace w) (first : Bool) (r : List Char) :
    nextItem first (w ++ ']' :: r) = .ok (false, ']' :: r) := by
  rw [nextItem, skipSpace_append hw, skipSpace_cons (by decide)]
  rfl

theorem nextItem_first {w v : List Char} (hw : IsSpace w) (hv : Starts v) :
    nextItem true (w ++ v) = .ok (true, v) := by
  rw [nextItem, skipSpace_starts hw hv]
  obtain ⟨c, rest, rfl, hc⟩ := hv
  have hne : c ≠ ']' := fun h => hc (h ▸ by decide)
  simp only [if_neg hne, if_true]

theorem nextItem_comma {w w' v : List Char} (hw : IsSpace w) (hw' : IsSpace w') (hv : Starts v) :
    nextItem false (w ++ ',' :: (w' ++ v)) = .ok (true, v) := by
  rw [nextItem, skipSpace_append hw, skipSpace_cons (by decide)]
  obtain ⟨c, rest, rfl, hc⟩ := id hv
  have hne : c ≠ ']' := fun h => hc (h ▸ by decide)
  simp only [skipSpace_starts hw' hv, if_neg hne, if_true]
  rfl

/-- The step of the list reader. -/
theorem itemsFrom_eq (p : Reader α) (first : Bool) (read : List α) (s : List Char) :
    p.itemsFrom first read s =
      (nextItem first s).bind fun (more, r) =>
        if more then (p.run r).bind fun (a, r) => p.itemsFrom false (a :: read) r
        else .ok (read.reverse, r) := by
  rw [Reader.itemsFrom.eq_def]
  split
  · rename_i hnext
    rw [hnext]
    rfl
  · rename_i hnext
    rw [hnext]
    rfl
  · rename_i hnext
    rw [hnext]
    simp only [Except.bind, if_true]
    split <;> rename_i hitem <;> rw [hitem]

theorem itemsFrom_item {p : Reader α} {first : Bool} {read : List α} {s v r : List Char} {a : α}
    (hnext : nextItem first s = .ok (true, v)) (hp : p.run v = .ok (a, r)) :
    p.itemsFrom first read s = p.itemsFrom false (a :: read) r := by
  rw [itemsFrom_eq, hnext]
  simp only [Except.bind, if_true, hp]

theorem itemsFrom_close {p : Reader α} {first : Bool} {read : List α} {s r : List Char}
    (hnext : nextItem first s = .ok (false, r)) :
    p.itemsFrom first read s = .ok (read.reverse, r) := by
  rw [itemsFrom_eq, hnext]
  rfl

section List

variable {p : Reader α} {W : α → List Char → Prop}
  (hread : ∀ a v, W a v → Starts v ∧ Accepts p v a)

include hread

/-- The items behind the first one are read in order, up to the closing bracket. -/
theorem itemsFrom_rest {l : List α} {items : List Item}
    (h : List.Forall₂ (fun a i => i.Spaced ∧ W a i.value) l items) (read : List α) {w : List Char}
    (hw : IsSpace w) (r : List Char) :
    p.itemsFrom false read (w ++ (restText (items.map Item.part) ++ ']' :: r)) =
      .ok (read.reverse ++ l, ']' :: r) := by
  induction h generalizing read w with
  | nil =>
    rw [List.append_nil]
    exact itemsFrom_close (nextItem_close hw false r)
  | @cons a i l items hi h ih =>
    obtain ⟨hstarts, haccepts⟩ := hread a i.value hi.2
    have hends : Ends (i.after ++ (restText (items.map Item.part) ++ ']' :: r)) :=
      (ends_restText .list _ r).append hi.1.2
    have htext : w ++ (restText ((i :: items).map Item.part) ++ ']' :: r) =
        w ++ ',' :: (i.before ++ (i.value ++ (i.after ++
          (restText (items.map Item.part) ++ ']' :: r)))) := by
      rw [List.map_cons, restText_cons]
      simp only [Item.part, Item.text, List.append_assoc, List.cons_append, List.nil_append]
    rw [htext, itemsFrom_item (nextItem_comma hw hi.1.1 (hstarts.append _))
      (haccepts [] _ isSpace_nil hends), ih (a :: read) hi.1.2, List.reverse_cons,
      List.append_assoc]
    rfl

/-- A list is read as the values of its items. -/
theorem accepts_list {l : List α} {v : List Char} (h : WritesList W l v) :
    Accepts (Reader.list p) v l := by
  obtain ⟨space, items, hspace, hitems, rfl⟩ := h
  intro w r hw _
  have hskip : skipSpace (w ++ (listText space items ++ r)) =
      '[' :: (space ++ (commas (items.map Item.text) ++ ']' :: r)) := by
    rw [skipSpace_append hw, listText, List.cons_append, skipSpace_cons (by decide)]
    simp only [List.append_assoc, List.cons_append, List.nil_append]
  have hitemsFrom : p.itemsFrom true [] (space ++ (commas (items.map Item.text) ++ ']' :: r)) =
      .ok (l, ']' :: r) := by
    cases hitems with
    | nil => exact itemsFrom_close (nextItem_close hspace true r)
    | @cons a i l items hi hitems =>
      obtain ⟨hstarts, haccepts⟩ := hread a i.value hi.2
      have hends : Ends (i.after ++ (restText (items.map Item.part) ++ ']' :: r)) :=
      (ends_restText .list _ r).append hi.1.2
      have htext : space ++ (commas ((i :: items).map Item.text) ++ ']' :: r) =
          (space ++ i.before) ++ (i.value ++ (i.after ++
            (restText (items.map Item.part) ++ ']' :: r))) := by
        rw [List.map_cons, commas, restText, List.flatMap_map, List.flatMap_map, Item.text]
        simp only [List.append_assoc]
        rfl
      rw [htext, itemsFrom_item (nextItem_first (isSpace_append hspace hi.1.1) (hstarts.append _))
        (haccepts [] _ isSpace_nil hends), itemsFrom_rest hread hitems [a] hi.1.2]
      rfl
  change Reader.readList p _ = _
  unfold Reader.readList
  rw [hskip]
  change enclosed closeList (p.itemsFrom true [] _) = _
  rw [hitemsFrom]
  rfl

end List

/-! ## Records -/

theorem nextKey_close {w : List Char} (hw : IsSpace w) (first : Bool) (r : List Char) :
    nextKey first (w ++ '\x7d' :: r) = .ok (none, '\x7d' :: r) := by
  rw [nextKey, skipSpace_append hw, skipSpace_cons (by decide)]
  rfl

theorem keyAt_named {m : Member} {name : String} (h : m.Named name) (r : List Char) :
    keyAt ('"' :: (m.key ++ '"' :: r)) = .ok (some name, r) := by
  rw [keyAt, readString_spells h, String.ofList_toList]
  rfl

section Member

variable {m : Member} (hm : m.Spaced) {name : String} (hname : m.Named name)

include hm hname

theorem nextKey_first {w : List Char} (hw : IsSpace w) (s : List Char) :
    nextKey true (w ++ (m.label ++ s)) = .ok (some name, m.after ++ ':' :: s) := by
  rw [nextKey, skipSpace_label hm hw]
  exact keyAt_named hname _

theorem nextKey_comma {w : List Char} (hw : IsSpace w) (s : List Char) :
    nextKey false (w ++ ',' :: (m.label ++ s)) = .ok (some name, m.after ++ ':' :: s) := by
  have hskip := skipSpace_label hm isSpace_nil s
  rw [List.nil_append] at hskip
  rw [nextKey, skipSpace_append hw, skipSpace_cons (by decide)]
  simp only [hskip]
  exact keyAt_named hname _

omit hname in
theorem readColon_after (s : List Char) : readColon (m.after ++ ':' :: s) = .ok s := by
  rw [readColon, skipSpace_append hm.2.1, skipSpace_cons (by decide)]
  rfl

end Member

/-- What a member does when it is read: the name of a field that is met, if it is one, and the
change of the record. -/
abbrev Effect (α : Type) := List String × (α → α)

/-- The effect of a member under a name: that of the field, or none under any other name. -/
def EffectUnder (fields : List (Field Reader α)) (name : String) (m : Member) (e : Effect α) :
    Prop :=
  (∃ field, fields.find? (·.name == name) = some field ∧
      Accepts field.update m.item.value e.2 ∧ e.1 = [name]) ∨
    (fields.find? (·.name == name) = none ∧ IsValue m.item.value ∧ e = ([], id))

/-- The effect of a member. -/
def HasEffect (fields : List (Field Reader α)) (m : Member) (e : Effect α) : Prop :=
  ∃ name, m.Named name ∧ EffectUnder fields name m e

/-- The step of the record reader. -/
theorem fieldsFrom_eq (fields : List (Field Reader α)) (first : Bool) (seen : List String)
    (acc : α) (s : List Char) :
    Reader.fieldsFrom fields first seen acc s =
      (nextKey first s).bind fun
        | (none, r) => .ok ((acc, seen), r)
        | (some k, r) =>
          match fields.find? (·.name == k) with
          | some field =>
            if k ∈ seen then .error (.pending (.duplicateField k) r)
            else (readColon r).bind fun r => (field.update.run r).bind fun (u, r) =>
              Reader.fieldsFrom fields false (k :: seen) (u acc) r
          | none => (readColon r).bind fun r => (skipValue r).bind
              (Reader.fieldsFrom fields false seen acc) := by
  rw [Reader.fieldsFrom.eq_def]
  split
  · rename_i hnext
    rw [hnext]
    rfl
  · rename_i hnext
    rw [hnext]
    rfl
  · rename_i k r hnext
    rw [hnext]
    simp only [Except.bind]
    cases fields.find? (·.name == k) with
    | some field =>
      dsimp only
      by_cases hk : k ∈ seen
      · rw [if_pos hk, if_pos hk]
      · rw [if_neg hk, if_neg hk]
        split <;> rename_i hcolon <;> rw [hcolon]
        dsimp only
        split <;> rename_i hupdate <;> rw [hupdate]
    | none =>
      dsimp only
      split <;> rename_i hcolon <;> rw [hcolon]
      dsimp only
      split <;> rename_i hskip <;> rw [hskip]

theorem fieldsFrom_close {fields : List (Field Reader α)} {first : Bool} {seen : List String}
    {acc : α} {s r : List Char} (hnext : nextKey first s = .ok (none, r)) :
    Reader.fieldsFrom fields first seen acc s = .ok ((acc, seen), r) := by
  rw [fieldsFrom_eq, hnext]
  rfl

/-- The record reader passes over a member with its effect. -/
theorem fieldsFrom_member {fields : List (Field Reader α)} {m : Member} (hm : m.Spaced)
    {name : String} {first : Bool} {seen : List String} {acc : α} {s r : List Char}
    (hnext : nextKey first s = .ok (some name, m.after ++ ':' :: (m.item.text ++ r)))
    {e : Effect α} (he : EffectUnder fields name m e) (hseen : ∀ n ∈ e.1, n ∉ seen)
    (hr : Ends r) :
    Reader.fieldsFrom fields first seen acc s =
      Reader.fieldsFrom fields false (e.1 ++ seen) (e.2 acc) (m.item.after ++ r) := by
  have hcolon := readColon_after hm (m.item.text ++ r)
  rw [fieldsFrom_eq, hnext]
  rcases he with ⟨field, hfind, haccepts, hnames⟩ | ⟨hfind, hvalue, rfl⟩
  · have hfresh : name ∉ seen := hseen name (hnames ▸ List.mem_cons_self)
    simp only [Except.bind, hfind, if_neg hfresh, hcolon, haccepts.item hm.2.2 hr]
    rw [hnames]
    rfl
  · simp only [Except.bind, hfind, hcolon, skipValue_item hm.2.2 hvalue hr]
    rfl

/-- The effects of members one after the other. -/
def applyAll (effects : List (Effect α)) (acc : α) : α := effects.foldl (fun acc e => e.2 acc) acc

/-- The names of fields that are met. -/
def namesMet (effects : List (Effect α)) : List String := effects.flatMap (·.1)

theorem namesMet_cons (e : Effect α) (effects : List (Effect α)) :
    namesMet (e :: effects) = e.1 ++ namesMet effects := List.flatMap_cons

/-- The members behind the first one have their effects one after the other. -/
theorem fieldsFrom_rest {fields : List (Field Reader α)} {members : List Member}
    {effects : List (Effect α)}
    (h : List.Forall₂ (fun m e => m.Spaced ∧ HasEffect fields m e) members effects)
    {seen : List String} (hseen : (namesMet effects ++ seen).Nodup) (acc : α) {w : List Char}
    (hw : IsSpace w) (r : List Char) :
    ∃ met, Reader.fieldsFrom fields false seen acc
        (w ++ (restText (members.map Member.part) ++ '\x7d' :: r)) =
      .ok ((applyAll effects acc, met), '\x7d' :: r) ∧ ∀ n ∈ namesMet effects ++ seen, n ∈ met := by
  induction h generalizing seen acc w with
  | nil => exact ⟨seen, fieldsFrom_close (nextKey_close hw false r), fun n hn => hn⟩
  | @cons m e members effects hm h ih =>
    obtain ⟨hspaced, name, hname, heffect⟩ := hm
    have hends : Ends (restText (members.map Member.part) ++ '\x7d' :: r) :=
      ends_restText .object _ r
    have htext : w ++ (restText ((m :: members).map Member.part) ++ '\x7d' :: r) =
        w ++ ',' :: (m.label ++ (m.item.text ++
          (restText (members.map Member.part) ++ '\x7d' :: r))) := by
      rw [List.map_cons, restText_cons]
      simp only [Member.part, List.append_assoc, List.cons_append]
    rw [namesMet_cons, List.append_assoc] at hseen
    have hfresh : ∀ n ∈ e.1, n ∉ seen := fun n hn hs =>
      (List.nodup_append.1 hseen).2.2 n hn n (List.mem_append_right _ hs) rfl
    have hperm : (namesMet effects ++ (e.1 ++ seen)).Perm (e.1 ++ (namesMet effects ++ seen)) :=
      List.perm_append_comm_assoc _ _ _
    obtain ⟨met, hrest, hmet⟩ := ih (hperm.nodup_iff.2 hseen) (e.2 acc) hspaced.2.2.2
    refine ⟨met, ?_, fun n hn => hmet n (hperm.mem_iff.2 ?_)⟩
    · rw [htext, fieldsFrom_member hspaced (nextKey_comma hspaced hname hw _) heffect hfresh hends]
      exact hrest
    · rwa [namesMet_cons, List.append_assoc] at hn

/-- All members have their effects one after the other, and the names of their fields are met. -/
theorem fieldsFrom_members {fields : List (Field Reader α)} {members : List Member}
    {effects : List (Effect α)}
    (h : List.Forall₂ (fun m e => m.Spaced ∧ HasEffect fields m e) members effects)
    (hnames : (namesMet effects).Nodup) (acc : α) {space : List Char} (hspace : IsSpace space)
    (r : List Char) :
    ∃ met, Reader.fieldsFrom fields true [] acc
        (space ++ (commas (members.map Member.text) ++ '\x7d' :: r)) =
      .ok ((applyAll effects acc, met), '\x7d' :: r) ∧ ∀ n ∈ namesMet effects, n ∈ met := by
  cases h with
  | nil => exact ⟨[], fieldsFrom_close (nextKey_close hspace true r), fun n hn => hn⟩
  | @cons m e members effects hm h =>
    obtain ⟨hspaced, name, hname, heffect⟩ := hm
    have hends : Ends (restText (members.map Member.part) ++ '\x7d' :: r) :=
      ends_restText .object _ r
    have htext : space ++ (commas ((m :: members).map Member.text) ++ '\x7d' :: r) =
        space ++ (m.label ++ (m.item.text ++
          (restText (members.map Member.part) ++ '\x7d' :: r))) := by
      rw [List.map_cons, commas, restText, List.flatMap_map, List.flatMap_map, Member.text]
      simp only [List.append_assoc]
      rfl
    have hperm : (namesMet effects ++ (e.1 ++ [])).Perm (namesMet (e :: effects)) := by
      rw [List.append_nil, namesMet_cons]
      exact List.perm_append_comm
    obtain ⟨met, hrest, hmet⟩ :=
      fieldsFrom_rest h (hperm.nodup_iff.2 hnames) (e.2 acc) hspaced.2.2.2 r
    refine ⟨met, ?_, fun n hn => hmet n (hperm.mem_iff.2 hn)⟩
    rw [htext, fieldsFrom_member hspaced (nextKey_first hspaced hname hspace _) heffect
      (fun _ _ => List.not_mem_nil) hends]
    exact hrest

/-- A field of a record, with what its value may be and the change of the record that it makes. -/
structure KnownField (α : Type) where
  field : Field Reader α
  value : List Char → Prop
  update : α → α

theorem find?_name {fields : List (Field Reader α)} (h : (fields.map Field.name).Nodup)
    {f : Field Reader α} (hf : f ∈ fields) : fields.find? (·.name == f.name) = some f := by
  induction fields with
  | nil => cases hf
  | cons g fields ih =>
    obtain ⟨hg, h⟩ := List.nodup_cons.1 h
    rcases List.mem_cons.1 hf with rfl | hf
    · exact List.find?_cons_of_pos (beq_self_eq_true _)
    · have hne : g.name ≠ f.name := fun heq => hg (heq ▸ List.mem_map_of_mem hf)
      rw [List.find?_cons_of_neg (by simpa using hne)]
      exact ih h hf

theorem find?_name_eq_none {fields : List (Field Reader α)} {name : String}
    (h : name ∉ fields.map Field.name) : fields.find? (·.name == name) = none := by
  refine List.find?_eq_none.2 fun f hf heq => h ?_
  exact List.mem_map.2 ⟨f, hf, by simpa using heq⟩

section Record

variable {fields : List (Field Reader α)} {known : List (KnownField α)}
  (hread : ∀ k ∈ known, ∀ v, k.value v → Accepts k.field.update v k.update)
  (hfields : (fields.map Field.name).Nodup) (hgiven : ∀ k ∈ known, k.field ∈ fields)
  (hnames : (known.map fun k => k.field.name).Nodup)
  (hcomm : ∀ k ∈ known, ∀ k' ∈ known, ∀ a, k'.update (k.update a) = k.update (k'.update a))

/-- The effects of the members of a written record, in the order of its fields. -/
def effectsOf (known : List (KnownField α)) (extra : List Member) : List (Effect α) :=
  known.map (fun k => ([k.field.name], k.update)) ++ extra.map fun _ => ([], id)

theorem namesMet_effectsOf (known : List (KnownField α)) (extra : List Member) :
    namesMet (effectsOf known extra) = known.map fun k => k.field.name := by
  rw [namesMet, effectsOf, List.flatMap_append, List.flatMap_map, List.flatMap_map]
  rw [List.flatMap_eq_nil_iff.2 fun _ _ => rfl, List.append_nil, ← List.map_eq_flatMap]

theorem applyAll_effectsOf (known : List (KnownField α)) (extra : List Member) (acc : α) :
    applyAll (effectsOf known extra) acc = known.foldl (fun a k => k.update a) acc := by
  rw [applyAll, effectsOf, List.foldl_append, List.foldl_map, List.foldl_map]
  exact List.foldl_fixed' (fun _ => rfl) extra

include hread hfields hgiven in
/-- The members of a written record have the effects of the fields that are given. -/
theorem hasEffect_members {members fieldMembers extra : List Member}
    (hspaced : ∀ m ∈ members, m.Spaced) (hperm : members.Perm (fieldMembers ++ extra))
    (hknown : List.Forall₂ (fun f m => m.Named f.1 ∧ f.2 m.item.value)
      (known.map fun k => ((k.field.name, k.value) : String × (List Char → Prop))) fieldMembers)
    (hextra : ∀ m ∈ extra, ∃ name, m.Named name ∧ name ∉ fields.map Field.name ∧
      IsValue m.item.value) :
    ∃ effects, List.Forall₂ (fun m e => m.Spaced ∧ HasEffect fields m e) members effects ∧
      effects.Perm (effectsOf known extra) := by
  have hknownEffects : List.Forall₂ (HasEffect fields) fieldMembers
      (known.map fun k => ([k.field.name], k.update)) := by
    rw [List.forall₂_map_right_iff]
    rw [List.forall₂_map_left_iff] at hknown
    refine List.Forall₂.flip (((List.forall₂_and_left _ _).2 ⟨fun k hk => hk, hknown⟩).imp ?_)
    rintro k m ⟨hk, hname, hvalue⟩
    exact ⟨k.field.name, hname,
      .inl ⟨k.field, find?_name hfields (hgiven k hk), hread k hk _ hvalue, rfl⟩⟩
  have hothers : List.Forall₂ (HasEffect fields) extra (extra.map fun _ => ([], id)) := by
    rw [List.forall₂_map_right_iff, List.forall₂_same]
    intro m hm
    obtain ⟨name, hname, hother, hvalue⟩ := hextra m hm
    exact ⟨name, hname, .inr ⟨find?_name_eq_none hother, hvalue, rfl⟩⟩
  -- the effects are known for the fields followed by the rest, and are moved to where they stand
  obtain ⟨effects, heffects, heperm⟩ :=
    List.perm_comp_forall₂ hperm (List.rel_append hknownEffects hothers)
  exact ⟨effects, (List.forall₂_and_left _ _).2 ⟨hspaced, heffects⟩, heperm⟩

include hcomm in
/-- The effects of different fields may be exchanged. -/
theorem effectsOf_comm {extra : List Member} {e e' : Effect α} (he : e ∈ effectsOf known extra)
    (he' : e' ∈ effectsOf known extra) (a : α) : e'.2 (e.2 a) = e.2 (e'.2 a) := by
  rw [effectsOf, List.mem_append, List.mem_map, List.mem_map] at he he'
  rcases he with ⟨k, hk, rfl⟩ | ⟨m, -, rfl⟩
  · rcases he' with ⟨k', hk', rfl⟩ | ⟨m', -, rfl⟩
    · exact hcomm k hk k' hk' a
    · rfl
  · rfl

include hread hfields hgiven hnames hcomm in
/-- A record is read as the fields that are given tell, in whatever order they stand and whatever
else stands among them, if no required field is missing. -/
theorem accepts_fields (name : String) (blank : α)
    (hrequired : ∀ f ∈ fields, f.absence = .required → ∃ k ∈ known, k.field = f) {v : List Char}
    (h : WritesAmong (fields.map Field.name) (known.map fun k => (k.field.name, k.value)) v) :
    Accepts (Reader.record name blank fields) v (known.foldl (fun a k => k.update a) blank) := by
  obtain ⟨space, members, fieldMembers, extra, hspace, hspaced, hperm, hknown, hextra, rfl⟩ := h
  obtain ⟨effects, heffects, heperm⟩ :=
    hasEffect_members hread hfields hgiven hspaced hperm hknown hextra
  have hmet : (namesMet effects).Perm (known.map fun k => k.field.name) := by
    rw [← namesMet_effectsOf known extra]
    exact heperm.flatMap_right _
  -- the members stand in another order than the fields, but different effects may be exchanged
  have happly : applyAll effects blank = known.foldl (fun a k => k.update a) blank := by
    rw [← applyAll_effectsOf known extra]
    exact (heperm.symm.foldl_eq' (fun e he e' he' a => effectsOf_comm hcomm he he' a) blank).symm
  intro w r hw _
  obtain ⟨met, hmembers, hall⟩ :=
    fieldsFrom_members heffects (hmet.nodup_iff.2 hnames) blank hspace r
  have hcomplete : Reader.complete fields
      (Reader.fieldsFrom fields true [] blank
        (space ++ (commas (members.map Member.text) ++ '\x7d' :: r))) =
      .ok (known.foldl (fun a k => k.update a) blank, '\x7d' :: r) := by
    have hnone : fields.find? (fun f => f.absence = .required && !met.contains f.name) = none := by
      refine List.find?_eq_none.2 fun f hf hmissing => ?_
      simp only [Bool.and_eq_true, decide_eq_true_eq] at hmissing
      obtain ⟨k, hk, rfl⟩ := hrequired f hf hmissing.1
      have hin : k.field.name ∈ met := hall _ (hmet.mem_iff.2 (List.mem_map_of_mem hk))
      simp [hin] at hmissing
    rw [hmembers, Reader.complete, hnone, happly]
  have hskip : skipSpace (w ++ (objectText space members ++ r)) =
      '\x7b' :: (space ++ (commas (members.map Member.text) ++ '\x7d' :: r)) := by
    rw [skipSpace_append hw, objectText, List.cons_append, skipSpace_cons (by decide)]
    simp only [List.append_assoc, List.cons_append, List.nil_append]
  change Reader.readRecord name blank _ _ = _
  unfold Reader.readRecord
  rw [hskip]
  change enclosed closeObject (Reader.complete _ _) = _
  rw [hcomplete]
  rfl

include hread hnames hcomm in
/-- A record is read as its fields tell, in whatever order they stand and whatever else stands
among them. -/
theorem accepts_record (name : String) (blank : α) {v : List Char}
    (h : WritesRecord (known.map fun k => (k.field.name, k.value)) v) :
    Accepts (Reader.record name blank (known.map KnownField.field)) v
      (known.foldl (fun a k => k.update a) blank) := by
  have hfields : ((known.map KnownField.field).map Field.name).Nodup := by rwa [List.map_map]
  refine accepts_fields hread hfields (fun k hk => List.mem_map_of_mem hk) hnames hcomm name blank
    (fun f hf _ => List.mem_map.1 hf) ?_
  unfold WritesRecord at h
  rw [List.map_map] at h ⊢
  exact h

end Record

theorem WritesRecord.starts {fields : List (String × (List Char → Prop))} {v : List Char}
    (h : WritesRecord fields v) : Starts v := by
  obtain ⟨space, members, -, -, -, -, -, -, -, rfl⟩ := h
  exact ⟨'\x7b', _, rfl, by decide⟩

/-! ## Optional values and whole texts -/

theorem accepts_option {p : Reader α} {v : List Char} {a : α} (h : Accepts p v a)
    (hv : Starts v) (hn : v.head? ≠ some 'n') : Accepts (Reader.option p) v (some a) := by
  intro w r hw hr
  have hskip : skipSpace (w ++ (v ++ r)) = v ++ r := skipSpace_starts hw (hv.append r)
  have hrun := h [] r isSpace_nil hr
  rw [List.nil_append] at hrun
  change Reader.readOption p _ = _
  unfold Reader.readOption
  rw [hskip]
  split
  · rename_i heq
    obtain ⟨c, rest, rfl, -⟩ := hv
    cases heq
    exact absurd rfl hn
  · rw [hrun]
    rfl

theorem accepts_null (p : Reader α) : Accepts (Reader.option p) ['n', 'u', 'l', 'l'] none := by
  intro w r hw _
  have hskip : skipSpace (w ++ (['n', 'u', 'l', 'l'] ++ r)) = 'n' :: 'u' :: 'l' :: 'l' :: r := by
    rw [skipSpace_append hw]
    exact skipSpace_cons (by decide) _
  change Reader.readOption p _ = _
  unfold Reader.readOption
  rw [hskip]
  rfl

/-- A text or `null` is read as such. -/
theorem accepts_optional {v : Option String} {s : List Char} (h : WritesOptional v s) :
    Accepts (Reader.option Reader.text) s v := by
  cases v with
  | none =>
    obtain rfl : s = ['n', 'u', 'l', 'l'] := h
    exact accepts_null Reader.text
  | some t =>
    obtain ⟨body, hbody, rfl⟩ := h
    exact accepts_option (accepts_literal hbody) ⟨'"', _, rfl, by decide⟩ (fun h => by cases h)

/-- A text that holds an accepted value and white space is read as the value. -/
theorem parseChars_accepts {p : Reader α} {w v w' : List Char} {a : α} (h : Accepts p v a)
    (hw : IsSpace w) (hw' : IsSpace w') : p.parseChars (w ++ (v ++ w')) = .ok a := by
  have hends : Ends w' := by
    have := (show Ends [] from fun c hc => by cases hc).append hw'
    rwa [List.append_nil] at this
  have hskip : skipSpace w' = [] := by
    have := skipSpace_append hw' []
    rwa [List.append_nil] at this
  rw [Reader.parseChars, h w w' hw hends]
  dsimp only
  rw [hskip]

end ShaderModules.Json.Grammar
