import Mathlib.Data.List.TakeWhile
import ShaderModules.Compiler.External
import ShaderModules.Proofs.BundleText

/-!
# Diagnostics of an external compiler

A run of the compiler can complain in three ways: by its exit status, on its diagnostic stream, and
by the log in an envelope on its output. None of them is lost: a bundle comes only from a run that
does nothing of the kind, and every other run is a compile error with what it complained of
(`compile_reports`).

* `ExternalCompiler.Envelope`: how an envelope is written (`parse_envelope`).
* `ExternalCompiler.Complains`: what a run complains of; it is the log of the result
  (`diagnostics?_interpret`).
-/

namespace ShaderModules

/-! ## Blank text -/

theorem Text.trim_eq_empty_iff {s : String} :
    Text.trim s = "" ↔ ∀ c ∈ s.toList, Text.isBlank c = true := by
  rw [Text.trim, String.ofList_eq_empty_iff]
  unfold Text.trimmed Text.trimEnd Text.trimStart
  rw [List.reverse_eq_nil_iff, List.dropWhile_eq_nil_iff]
  simp only [List.mem_reverse]
  constructor
  · intro h c hc
    rw [← List.takeWhile_append_dropWhile (p := Text.isBlank) (l := s.toList)] at hc
    rcases List.mem_append.1 hc with hc | hc
    · exact List.mem_takeWhile_imp hc
    · exact h c hc
  · exact fun h c hc => h c ((List.dropWhile_sublist _).subset hc)

namespace ExternalCompiler

open Json Json.Grammar

/-! ## Envelopes -/

/-- A part of an envelope, with the change of the result that it makes. -/
def partField (name : String) (set : Option String → CompilerResult → CompilerResult)
    (v : Option String) : KnownField CompilerResult where
  field := ⟨name, .optional, set <$> Reader.option Reader.text⟩
  value := WritesOptional v
  update := set v

/-- The log of an envelope. -/
def logField : Option String → KnownField CompilerResult :=
  partField "log" fun v r => { r with log := v }

/-- The output in an envelope. -/
def outputField : Option String → KnownField CompilerResult :=
  partField "output" fun v r => { r with output := v }

/-- The text is an object with the log and the output of a result, among members of other names.
What the result does not have is `null` or not given. -/
def Envelope (r : CompilerResult) (text : String) : Prop :=
  ∃ given : List (String × Option String),
    given.Sublist [("log", r.log), ("output", r.output)] ∧
    (∀ part ∈ [("log", r.log), ("output", r.output)], part.2.isSome = true → part ∈ given) ∧
    ∃ before v after, IsSpace before ∧ IsSpace after ∧
      WritesAmong ["log", "output"] (given.map fun part => (part.1, WritesOptional part.2)) v ∧
      text.toList = before ++ (v ++ after)

/-- The parts that are given are read in any order. -/
theorem accepts_parts {r : CompilerResult} (known : List (KnownField CompilerResult))
    (hsub : known.Sublist [logField r.log, outputField r.output])
    (hmakes : known.foldl (fun r' k => k.update r') {} = r) {v : List Char}
    (h : WritesAmong ["log", "output"] (known.map fun k => (k.field.name, k.value)) v) :
    Accepts (CompilerResult.envelopeFormat (R := Reader)) v r := by
  have hmem : ∀ k ∈ known, k = logField r.log ∨ k = outputField r.output :=
    fun k hk => List.mem_pair.1 (hsub.subset hk)
  have hread : ∀ k ∈ known, ∀ v, k.value v → Accepts k.field.update v k.update := by
    intro k hk v hv
    rcases hmem k hk with rfl | rfl <;> exact (accepts_optional hv).map _
  have hnames : (known.map fun k => k.field.name).Nodup := by
    refine (hsub.map _).nodup ?_
    change ["log", "output"].Nodup
    decide
  have hfields : ([(logField r.log).field, (outputField r.output).field].map Field.name).Nodup := by
    change ["log", "output"].Nodup
    decide
  have hgiven : ∀ k ∈ known, k.field ∈ [(logField r.log).field, (outputField r.output).field] :=
    fun k hk => List.mem_pair.2 ((hmem k hk).imp (congrArg _) (congrArg _))
  have hcomm : ∀ k ∈ known, ∀ k' ∈ known, ∀ r',
      k'.update (k.update r') = k.update (k'.update r') := by
    intro k hk k' hk' r'
    rcases hmem k hk with rfl | rfl <;> rcases hmem k' hk' with rfl | rfl <;> rfl
  have hoptional : ∀ f ∈ [(logField r.log).field, (outputField r.output).field],
      f.absence = .required → ∃ k ∈ known, k.field = f := by
    intro f hf habsence
    rcases List.mem_pair.1 hf with rfl | rfl <;> cases habsence
  have haccepts := accepts_fields hread hfields hgiven hnames hcomm "Envelope" {} hoptional h
  rwa [hmakes] at haccepts

/-- However an envelope is written, it is read as its result. -/
theorem parse_envelope {r : CompilerResult} {text : String} (h : Envelope r text) :
    (CompilerResult.envelopeFormat (R := Reader)).parse text = .ok r := by
  obtain ⟨given, hsub, hsome, before, v, after, hbefore, hafter, hwrites, htext⟩ := h
  suffices haccepts : Accepts (CompilerResult.envelopeFormat (R := Reader)) v r by
    rw [Reader.parse, htext, parseChars_accepts haccepts hbefore hafter]
  have habsent : ∀ part ∈ [("log", r.log), ("output", r.output)], part ∉ given → part.2 = none :=
    fun part hpart hnot => Option.not_isSome_iff_eq_none.1 fun his => hnot (hsome part hpart his)
  rw [List.forall_mem_cons, List.forall_mem_singleton] at habsent
  rw [List.sublist_cons_iff, List.sublist_singleton] at hsub
  obtain ⟨log, output⟩ := r
  -- what is not given is what the blank result does not have either
  rcases hsub with (rfl | rfl) | ⟨given, rfl, hsub⟩
  · obtain ⟨rfl, rfl⟩ : log = none ∧ output = none := by simpa using habsent
    exact accepts_parts [] (List.nil_sublist _) rfl hwrites
  · obtain rfl : log = none := by simpa using habsent
    exact accepts_parts [outputField output] (List.sublist_cons_self _ _) rfl hwrites
  · rcases List.sublist_singleton.1 hsub with rfl | rfl
    · obtain rfl : output = none := by simpa using habsent
      exact accepts_parts [logField log] ((List.nil_sublist _).cons_cons _) rfl hwrites
    · exact accepts_parts [logField log, outputField output] (List.Sublist.refl _) rfl hwrites

theorem writesOptional_quote (t : String) : WritesOptional (some t) (Text.quote t).toList := by
  rw [quote_toList]
  exact ⟨Text.quoteBody t.toList, spells_quoteBody t.toList, rfl⟩

/-- A part of an envelope without white space. -/
def partText : Option String → List Char
  | some t => (Text.quote t).toList
  | none => ['n', 'u', 'l', 'l']

theorem writesOptional_partText (v : Option String) : WritesOptional v (partText v) := by
  cases v with
  | none => rfl
  | some t => exact writesOptional_quote t

/-- The parts that are given, in any order and without white space, are an envelope. -/
theorem envelope_of_parts {r : CompilerResult} {given members : List (String × Option String)}
    (hsub : given.Sublist [("log", r.log), ("output", r.output)])
    (hsome : ∀ part ∈ [("log", r.log), ("output", r.output)], part.2.isSome = true → part ∈ given)
    (hperm : members.Perm given) {text : String}
    (htext : text.toList =
      objectText [] (members.map fun part => plainField part.1 (partText part.2))) :
    Envelope r text := by
  refine ⟨given, hsub, hsome, [], text.toList, [], isSpace_nil, isSpace_nil, ?_,
    by rw [List.nil_append, List.append_nil]⟩
  refine ⟨[], members.map fun part => plainField part.1 (partText part.2),
    given.map fun part => plainField part.1 (partText part.2), [], isSpace_nil, ?_, ?_, ?_, ?_, ?_⟩
  · intro m hm
    obtain ⟨part, -, rfl⟩ := List.mem_map.1 hm
    exact spaced_plainField _ _
  · rw [List.append_nil]
    exact hperm.map _
  · rw [List.forall₂_map_left_iff, List.forall₂_map_right_iff, List.forall₂_same]
    exact fun part _ => ⟨named_plainField _ _, writesOptional_partText part.2⟩
  · simp
  · exact htext

theorem quoteBody_log : Text.quoteBody ['l', 'o', 'g'] = ['l', 'o', 'g'] := by decide

theorem quoteBody_output :
    Text.quoteBody ['o', 'u', 't', 'p', 'u', 't'] = ['o', 'u', 't', 'p', 'u', 't'] := by decide

/-- A log and an output that are written one after the other are an envelope. -/
theorem envelope_quoted (log output : String) : Envelope ⟨some log, some output⟩
    ("\x7b\"log\":" ++ Text.quote log ++ ",\"output\":" ++ Text.quote output ++ "\x7d") := by
  refine envelope_of_parts (List.Sublist.refl _) (fun part hpart _ => hpart) (List.Perm.refl _) ?_
  simp [objectText, commas, Member.text, Member.label, Item.text, plainField, partText,
    quoteBody_log, quoteBody_output]

/-! ## What a run complains of -/

/-- The text is an envelope with this log, which is not empty. What is written as an envelope
counts, and what is read as one in another form. -/
def EnvelopeLog (text log : String) : Prop :=
  ∃ r, (Envelope r text ∨ (CompilerResult.envelopeFormat (R := Reader)).parse text = .ok r) ∧
    r.log = some log ∧ log ≠ ""

theorem envelopeLog_iff {text log : String} : EnvelopeLog text log ↔
    ∃ r, (CompilerResult.envelopeFormat (R := Reader)).parse text = .ok r ∧ r.log = some log ∧
      log ≠ "" :=
  exists_congr fun _ => and_congr_left fun _ => or_iff_right_of_imp parse_envelope

theorem diagnostics?_unwrap {text log : String} :
    (unwrap text).diagnostics? = some log ↔ EnvelopeLog text log := by
  rw [envelopeLog_iff]
  unfold unwrap
  cases hparse : (CompilerResult.envelopeFormat (R := Reader)).parse text with
  | error message => simp [CompilerResult.diagnostics?, CompilerResult.success]
  | ok r =>
    dsimp only
    split
    · simp [CompilerResult.diagnostics?, Option.filter_eq_some_iff]
    · rename_i hnone
      have hlog : r.log = none := by
        cases hlog : r.log with
        | none => rfl
        | some log => simp [hlog] at hnone
      simp [CompilerResult.diagnostics?, CompilerResult.success, hlog]

/-- What a run complains of: what it writes on its diagnostic stream, or that it fails without
doing so, or else the log of an envelope. -/
inductive Complains (program : String) (o : CommandOutput) : String → Prop
  | stream : Text.trim o.stderr ≠ "" → Complains program o (Text.trim o.stderr)
  | failure : Text.trim o.stderr = "" → o.status.isSuccess = false →
      Complains program o (silentFailure program o.status)
  | envelope {log : String} : Text.trim o.stderr = "" → o.status.isSuccess = true →
      EnvelopeLog o.stdout log → Complains program o log

theorem silentFailure_ne_empty (program : String) (status : ExitStatus) :
    silentFailure program status ≠ "" := by
  intro h
  have := congrArg String.toList h
  simp [silentFailure] at this

theorem Complains.ne_empty {program : String} {o : CommandOutput} {log : String}
    (h : Complains program o log) : log ≠ "" := by
  cases h with
  | stream hstderr => exact hstderr
  | failure => exact silentFailure_ne_empty _ _
  | envelope _ _ hlog =>
    obtain ⟨r, -, -, hne⟩ := hlog
    exact hne

theorem diagnostics?_failure {text log : String} :
    (CompilerResult.failure text).diagnostics? = some log ↔ log = text ∧ log ≠ "" := by
  rw [CompilerResult.diagnostics?, CompilerResult.failure, Option.filter_eq_some_iff,
    Option.some.injEq, decide_eq_true_eq, eq_comm]

/-- The log of the result is what the run complains of. -/
theorem diagnostics?_interpret {program : String} {o : CommandOutput} {log : String} :
    (interpret program o).diagnostics? = some log ↔ Complains program o log := by
  unfold interpret
  dsimp only
  constructor
  · intro h
    split at h
    · rename_i hstderr
      obtain ⟨rfl, -⟩ := diagnostics?_failure.1 h
      exact .stream hstderr
    · rename_i hblank
      rw [Decidable.not_not] at hblank
      split at h
      · rename_i hsuccess
        exact .envelope hblank hsuccess (diagnostics?_unwrap.1 h)
      · rename_i hfailure
        obtain ⟨rfl, -⟩ := diagnostics?_failure.1 h
        exact .failure hblank (Bool.eq_false_iff.2 hfailure)
  · intro h
    have hne := h.ne_empty
    cases h with
    | stream hstderr =>
      rw [if_pos hstderr]
      exact diagnostics?_failure.2 ⟨rfl, hne⟩
    | failure hblank hfailure =>
      rw [if_neg (not_not_intro hblank), hfailure]
      exact diagnostics?_failure.2 ⟨rfl, hne⟩
    | envelope hblank hsuccess hlog =>
      rw [if_neg (not_not_intro hblank), if_pos hsuccess]
      exact diagnostics?_unwrap.2 hlog

/-! ## What becomes of a run -/

/-- A log that is not empty is a compile error, whatever the output is. -/
theorem bundle_of_diagnostics? {r : CompilerResult} {log : String}
    (h : r.diagnostics? = some log) (path : String) :
    r.bundle path = .error (.compilation path (Text.replace log placeholderInput path)) := by
  rw [CompilerResult.bundle, h]

/-- **No diagnostic is lost**: of a compiler that ran to its end there is a bundle only if it
succeeded, wrote nothing but blanks on its diagnostic stream, and its output is not an envelope with
a log. A failure and everything written on the diagnostic stream are a compile error of the file,
whatever the output is, and so is the log of an envelope. -/
theorem compile_reports {launch : Launcher} {tree : FileTree} {c : ExternalCommand}
    {source : String} {options : CompileOptions} {done : Completed}
    (hrun : launch tree (c.invocation tree source options.flags [] none) = .ok done)
    (path : String) :
    ∃ r, (compile launch tree c source options).value = .ok r ∧
      (∀ b, r.bundle path = .ok b → done.status.isSuccess = true ∧
        (∀ ch ∈ (Text.lossy done.diagnostics).toList, Text.isBlank ch = true) ∧
          ∀ log, ¬ EnvelopeLog (Text.lossy done.output) log) ∧
      (done.status.isSuccess = false ∨ Text.trim (Text.lossy done.diagnostics) ≠ "" →
        ∃ log ≠ "", log = (if Text.trim (Text.lossy done.diagnostics) = ""
            then silentFailure c.program done.status
            else Text.trim (Text.lossy done.diagnostics)) ∧
          r.bundle path = .error (.compilation path (Text.replace log placeholderInput path))) ∧
      (done.status.isSuccess = true → Text.trim (Text.lossy done.diagnostics) = "" →
        ∀ log, EnvelopeLog (Text.lossy done.output) log →
          r.bundle path = .error (.compilation path (Text.replace log placeholderInput path))) := by
  have hcompile : (compile launch tree c source options).value =
      .ok (interpret c.program (.ofCompleted done)) := by
    have hvalue : (c.run launch tree source options.flags [] none).value =
        .ok (.ofCompleted done) := by
      rw [ExternalCommand.run, hrun]
    rw [compile, Logged.value_bind, hvalue]
    rfl
  have hreport : ∀ log, Complains c.program (.ofCompleted done) log →
      (interpret c.program (.ofCompleted done)).bundle path =
        .error (.compilation path (Text.replace log placeholderInput path)) :=
    fun log hlog => bundle_of_diagnostics? (diagnostics?_interpret.2 hlog) path
  refine ⟨_, hcompile, fun b hb => ?_, fun hcomplains => ?_, fun hsuccess hblank log hlog => ?_⟩
  · have hquiet : ∀ log, ¬ Complains c.program (.ofCompleted done) log := fun log hlog => by
      rw [hreport log hlog] at hb
      cases hb
    have hblank : Text.trim (Text.lossy done.diagnostics) = "" := by
      by_contra hstderr
      exact hquiet _ (.stream hstderr)
    have hsuccess : done.status.isSuccess = true := by
      by_contra hfailure
      exact hquiet _ (.failure hblank (Bool.eq_false_iff.2 hfailure))
    exact ⟨hsuccess, Text.trim_eq_empty_iff.1 hblank,
      fun log hlog => hquiet log (.envelope hblank hsuccess hlog)⟩
  · have hlog : Complains c.program (.ofCompleted done)
        (if Text.trim (Text.lossy done.diagnostics) = "" then silentFailure c.program done.status
          else Text.trim (Text.lossy done.diagnostics)) := by
      split
      · rename_i hblank
        exact .failure hblank (hcomplains.resolve_right (not_not_intro hblank))
      · rename_i hstderr
        exact .stream hstderr
    exact ⟨_, hlog.ne_empty, rfl, hreport _ hlog⟩
  · exact hreport log (.envelope hblank hsuccess hlog)

/-- A launcher of which every run ends in the same way. -/
def ending (done : Completed) : Launcher := fun _ _ => .ok done

/-- A warning beside the structured output is a compile error, on the diagnostic stream and in an
envelope. -/
theorem compile_reports_warning :
    (∃ r, (compile (ending ⟨.code 0, "\x7b\"shaders\":[]\x7d".toUTF8,
        "<stdin>:2:4: unused\n".toUTF8⟩) {} ⟨"glslx", []⟩ "" {}).value = .ok r ∧
      r.bundle "a.glsl" = .error (.compilation "a.glsl" "a.glsl:2:4: unused")) ∧
    ∃ r, (compile (ending ⟨.code 0, ("\x7b\"log\":" ++ Text.quote "<stdin>:2:4: unused" ++
          ",\"output\":" ++ Text.quote "\x7b\"shaders\":[]\x7d" ++ "\x7d").toUTF8,
        "\n".toUTF8⟩) {} ⟨"glslx", []⟩ "" {}).value = .ok r ∧
      r.bundle "a.glsl" = .error (.compilation "a.glsl" "a.glsl:2:4: unused") := by
  have hrun : ∀ done, ending done {} (ExternalCommand.invocation ⟨"glslx", []⟩ {} ""
      (CompileOptions.flags {}) [] none) = .ok done := fun _ => rfl
  have hreplace : Text.replace "<stdin>:2:4: unused" placeholderInput "a.glsl" =
      "a.glsl:2:4: unused" := by decide +kernel
  constructor
  · obtain ⟨r, hr, -, hnoisy, -⟩ := compile_reports (hrun ⟨.code 0,
      "\x7b\"shaders\":[]\x7d".toUTF8, "<stdin>:2:4: unused\n".toUTF8⟩) "a.glsl"
    have htrim : Text.trim (Text.lossy "<stdin>:2:4: unused\n".toUTF8) = "<stdin>:2:4: unused" := by
      rw [Text.lossy_toUTF8]
      decide
    obtain ⟨log, -, hlog, hbundle⟩ := hnoisy (.inr (by rw [htrim]; decide))
    rw [htrim, if_neg (by decide)] at hlog
    rw [hlog, hreplace] at hbundle
    exact ⟨r, hr, hbundle⟩
  · obtain ⟨r, hr, -, -, henvelope⟩ := compile_reports (hrun ⟨.code 0,
      ("\x7b\"log\":" ++ Text.quote "<stdin>:2:4: unused" ++ ",\"output\":" ++
        Text.quote "\x7b\"shaders\":[]\x7d" ++ "\x7d").toUTF8, "\n".toUTF8⟩) "a.glsl"
    have hblank : Text.trim (Text.lossy "\n".toUTF8) = "" := by
      rw [Text.lossy_toUTF8]
      decide
    have hbundle := henvelope rfl hblank "<stdin>:2:4: unused" (by
      rw [Text.lossy_toUTF8]
      exact ⟨_, .inl (envelope_quoted _ _), rfl, by decide⟩)
    rw [hreplace] at hbundle
    exact ⟨r, hr, hbundle⟩

end ExternalCompiler

end ShaderModules
