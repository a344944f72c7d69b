import ShaderModules.Proofs.Gating

/-!
# Output in an envelope

A compiler prints its output as it is, or in an envelope. What is made of it is the same, the bundle
or the error with its causes, if the output does not read as an envelope itself
(`compile_wrapped`). An object whose log and output are both `null` or not given does not.

* `ExternalCompiler.Wraps`: how an output is put in an envelope; a log beside it is empty.
* `ExternalCompiler.printedEnvelopes`: envelopes as compilers print them (`wraps_printed`).
* `ExternalCompiler.ReadsAsEnvelope`: a text that is taken for an envelope.
-/

namespace ShaderModules.ExternalCompiler

open Json Json.Grammar

/-! ## Envelopes around an output -/

/-- The text is an envelope around an output, with no log or an empty one. -/
def Wraps (output text : String) : Prop :=
  ∃ r : CompilerResult, r.Silent ∧ r.output = some output ∧ Envelope r text

/-- The text reads as an envelope that gives a log or an output. -/
def ReadsAsEnvelope (text : String) : Prop :=
  ∃ r, (CompilerResult.envelopeFormat (R := Reader)).parse text = .ok r ∧
    (r.log.isSome || r.output.isSome) = true

/-- Envelopes as they are printed for an output: with the output alone, and with an empty log in
front of it or behind it. -/
def printedEnvelopes (output : String) : List String :=
  ["\x7b\"output\":" ++ Text.quote output ++ "\x7d",
    "\x7b\"log\":\"\",\"output\":" ++ Text.quote output ++ "\x7d",
    "\x7b\"output\":" ++ Text.quote output ++ ",\"log\":\"\"\x7d"]

/-- What is printed wraps the output. -/
theorem wraps_printed {output text : String} (h : text ∈ printedEnvelopes output) :
    Wraps output text := by
  have hempty : (Text.quote "").toList = ['"', '"'] := by decide
  unfold printedEnvelopes at h
  simp only [List.mem_cons, List.not_mem_nil, or_false] at h
  rcases h with rfl | rfl | rfl
  · refine ⟨⟨none, some output⟩, .inl rfl, rfl, envelope_of_parts (List.sublist_cons_self _ _)
      (by simp) (List.Perm.refl [("output", some output)]) ?_⟩
    simp [objectText, commas, Member.text, Member.label, Item.text, plainField, partText,
      quoteBody_output]
  · refine ⟨⟨some "", some output⟩, .inr rfl, rfl, envelope_of_parts (List.Sublist.refl _)
      (fun part hpart _ => hpart) (List.Perm.refl _) ?_⟩
    simp [objectText, commas, Member.text, Member.label, Item.text, plainField, partText,
      quoteBody_log, quoteBody_output, hempty]
  · refine ⟨⟨some "", some output⟩, .inr rfl, rfl, envelope_of_parts (List.Sublist.refl _)
      (fun part hpart _ => hpart) (List.Perm.swap _ _ _) ?_⟩
    simp [objectText, commas, Member.text, Member.label, Item.text, plainField, partText,
      quoteBody_log, quoteBody_output, hempty]

/-! ## What is made of an output -/

theorem unwrap_raw {text : String} (h : ¬ ReadsAsEnvelope text) :
    unwrap text = .success text := by
  unfold unwrap
  cases hparse : (CompilerResult.envelopeFormat (R := Reader)).parse text with
  | error message => rfl
  | ok r => exact if_neg fun hsome => h ⟨r, hparse, hsome⟩

theorem unwrap_envelope {text : String} {r : CompilerResult} (h : Envelope r text)
    (houtput : r.output.isSome = true) : unwrap text = r := by
  unfold unwrap
  rw [parse_envelope h]
  exact if_pos (by rw [houtput, Bool.or_true])

/-- A result without diagnostics is read from its output. -/
theorem bundle_of_output {r : CompilerResult} (h : r.Silent) {output : String}
    (houtput : r.output = some output) (path : String) :
    r.bundle path = (Bundle.parse output).mapError (.structure path) := by
  rw [CompilerResult.bundle_of_silent h, houtput]

/-- A compiler that ends well and writes nothing but blanks on its diagnostic stream. -/
structure Quiet (done : Completed) : Prop where
  isSuccess : done.status.isSuccess = true
  blank : Text.trim (Text.lossy done.diagnostics) = ""

variable {launch launch' : Launcher} {tree : FileTree} {c : ExternalCommand} {source : String}
  {options : CompileOptions} {done done' : Completed}

theorem compile_quiet
    (hrun : launch tree (c.invocation tree source options.flags [] none) = .ok done)
    (hquiet : Quiet done) :
    (compile launch tree c source options).value = .ok (unwrap (Text.lossy done.output)) := by
  have hvalue : (c.run launch tree source options.flags [] none).value =
      .ok (.ofCompleted done) := by
    rw [ExternalCommand.run, hrun]
  have hinterpret : interpret c.program (.ofCompleted done) = unwrap (Text.lossy done.output) := by
    unfold interpret CommandOutput.ofCompleted
    rw [hquiet.blank, hquiet.isSuccess]
    rfl
  rw [compile, Logged.value_bind, hvalue, ← hinterpret]
  rfl

/-- **An envelope does not matter**: of an output that does not read as an envelope itself, the same
is made if the compiler prints it as it is and if it prints it in an envelope without a log, or
with an empty one. It is the bundle that the output is written for, or the error that reading it
gives. -/
theorem compile_wrapped
    (hrun : launch tree (c.invocation tree source options.flags [] none) = .ok done)
    (hrun' : launch' tree (c.invocation tree source options.flags [] none) = .ok done')
    (hquiet : Quiet done) (hquiet' : Quiet done')
    (hraw : ¬ ReadsAsEnvelope (Text.lossy done.output))
    (hwraps : Wraps (Text.lossy done.output) (Text.lossy done'.output)) (path : String) :
    ∃ r r', (compile launch tree c source options).value = .ok r ∧
      (compile launch' tree c source options).value = .ok r' ∧
      r.bundle path = (Bundle.parse (Text.lossy done.output)).mapError (.structure path) ∧
      r'.bundle path = r.bundle path := by
  obtain ⟨r', hsilent, houtput, henvelope⟩ := hwraps
  have hunwrap := unwrap_envelope henvelope (by rw [houtput]; rfl)
  have hbundle : (CompilerResult.success (Text.lossy done.output)).bundle path =
      (Bundle.parse (Text.lossy done.output)).mapError (.structure path) :=
    bundle_of_output (.inl rfl) rfl path
  refine ⟨_, r', (compile_quiet hrun hquiet).trans (by rw [unwrap_raw hraw]),
    (compile_quiet hrun' hquiet').trans (by rw [hunwrap]), hbundle, ?_⟩
  rw [bundle_of_output hsilent houtput path, hbundle]

/-- An output with a log that is `null` does not read as an envelope, and it is no bundle. It gives
the same error in an envelope with an empty log. -/
theorem compile_wrapped_null :
    ∃ r r', (compile (ending ⟨.code 0, "\x7b\"log\":null\x7d".toUTF8, .empty⟩) {}
        ⟨"glslx", []⟩ "" {}).value = .ok r ∧
      (compile (ending ⟨.code 0, ("\x7b\"log\":\"\",\"output\":" ++
          Text.quote "\x7b\"log\":null\x7d" ++ "\x7d").toUTF8, "\n".toUTF8⟩) {}
        ⟨"glslx", []⟩ "" {}).value = .ok r' ∧
      r.bundle "a.glsl" = .error (.structure "a.glsl" .missingShaders) ∧
      r'.bundle "a.glsl" = r.bundle "a.glsl" := by
  have hrun : ∀ done, ending done {} (ExternalCommand.invocation ⟨"glslx", []⟩ {} ""
      (CompileOptions.flags {}) [] none) = .ok done := fun _ => rfl
  have hraw : ¬ ReadsAsEnvelope "\x7b\"log\":null\x7d" := by
    rintro ⟨r, hr, hsome⟩
    have hnone : (CompilerResult.envelopeFormat (R := Reader)).parse "\x7b\"log\":null\x7d" =
        .ok ⟨none, none⟩ := by decide +kernel
    rw [hnone] at hr
    cases hr
    cases hsome
  have hblank : Text.trim (Text.lossy "\n".toUTF8) = "" := by
    rw [Text.lossy_toUTF8]
    decide
  obtain ⟨r, r', hr, hr', hbundle, hsame⟩ := compile_wrapped
    (hrun ⟨.code 0, "\x7b\"log\":null\x7d".toUTF8, .empty⟩)
    (hrun ⟨.code 0, ("\x7b\"log\":\"\",\"output\":" ++ Text.quote "\x7b\"log\":null\x7d" ++
      "\x7d").toUTF8, "\n".toUTF8⟩)
    ⟨rfl, by decide⟩ ⟨rfl, hblank⟩ (by rwa [Text.lossy_toUTF8])
    (by rw [Text.lossy_toUTF8, Text.lossy_toUTF8]; exact wraps_printed (by simp [printedEnvelopes]))
    "a.glsl"
  have hparse : (Bundle.outputFormat (R := Reader)).parse "\x7b\"log\":null\x7d" = .ok none := by
    decide +kernel
  refine ⟨r, r', hr, hr', ?_, hsame⟩
  rw [hbundle, Text.lossy_toUTF8, Bundle.parse, hparse]
  rfl

end ShaderModules.ExternalCompiler
