import XmlPipeline.Proofs.Engine.Passage

/-!
This module contains what each kind of step does: which calls of the processor it makes, what it writes to
the response, and what it leaves to the steps after it.
-/

namespace XmlPipeline

open RunM

namespace ValidatorStep

/--
The name under which the report of a validator is kept for the next stylesheet. An empty namespace is none.
-/
def reportKey? (step : ValidatorStep) : Option ParameterName :=
  step.reportName.map fun name => { uri := step.reportUri.filter (!·.isEmpty), localName := name }

/--
What a validation binds for the next stylesheet: its report, if there is one, to the name that the step
gives it.
-/
def reported (step : ValidatorStep) (validation : Except Error Validation) :
    List (ParameterName × ParameterValue) :=
  match validation.toOption.bind (·.report), step.reportKey? with
  | some report, some key => [(key, .document report.toDocument)]
  | _, _ => []

end ValidatorStep

namespace Setting

section

variable {Program σ : Type} {setting : Setting Program} {run after : Run Program σ}

theorem quiet_outlet (setting : Setting Program) (current : Step) (next : Option Step) :
    Quiet (setting.outlet current next : RunM Program σ Outlet) := by
  unfold outlet
  split
  · apply Quiet.bind (.note rfl)
    intro _
    apply Quiet.bind (.log _)
    intro _
    apply Quiet.ofExcept
  · apply Quiet.bind (.log _)
    intro _
    apply Quiet.ofExcept

theorem perform_outlet (setting : Setting Program) (current : Step) (next : Option Step)
    (run : Run Program σ) :
    (perform (setting.outlet current next) run).1
      = Outlet.resolve setting.engine.serializers setting.properties current next := by
  unfold outlet
  split
  · rw [note_bind, log_bind, perform_ofExcept]
  · rw [log_bind, perform_ofExcept]

theorem runValidator_cases {step : ValidatorStep} {progress : Progress}
    {result : Except Error Progress} {validation : Except Error Validation}
    (hvalidation : setting.engine.processor.validate step.schemaPaths (.text progress.source.toText)
      (ValidationReport.stepLabel step.name) = validation)
    (h : perform (setting.runValidator step progress) run = (result, after)) :
    after.out = run.out
      ∧ after.journal.calls = run.journal.calls
        ++ [.validated step.schemaPaths (.text progress.source.toText)
          (ValidationReport.stepLabel step.name)]
      ∧ ∀ reached, result = .ok reached → ∃ valid, validation = .ok valid
        ∧ reached.source = .text valid.output
        ∧ reached.reports = progress.reports.insertMany (step.reported validation) := by
  let occurrence : Occurrence Program := .validated step.schemaPaths (.text progress.source.toText)
    (ValidationReport.stepLabel step.name)
  have hcalls : (run.note occurrence).journal.calls = run.journal.calls ++ [occurrence] :=
    run.calls_note occurrence
  unfold runValidator at h
  simp only at h
  rw [note_bind, ofExcept_mapError_bind, hvalidation] at h
  cases validation with
  | error error =>
    obtain ⟨rfl, rfl⟩ := Prod.mk.inj h
    exact ⟨rfl, hcalls, by simp⟩
  | ok valid =>
    simp only at h
    unfold ValidatorStep.reported ValidatorStep.reportKey?
    cases hreport : valid.report with
    | none =>
      rw [hreport] at h
      obtain ⟨rfl, rfl⟩ := pure_cases h
      refine ⟨rfl, hcalls, ?_⟩
      intro reached hreached
      obtain rfl := Except.ok.inj hreached
      exact ⟨valid, rfl, rfl, by simp [Except.toOption, hreport, SortedMap.insertMany]⟩
    | some report =>
      rw [hreport] at h
      cases hname : step.reportName with
      | none =>
        rw [hname] at h
        simp only at h
        rw [log_bind] at h
        obtain ⟨rfl, rfl⟩ := pure_cases h
        refine ⟨rfl, (Run.calls_log _ _).trans hcalls, ?_⟩
        intro reached hreached
        obtain rfl := Except.ok.inj hreached
        exact ⟨valid, rfl, rfl, by simp [SortedMap.insertMany]⟩
      | some name =>
        rw [hname] at h
        obtain ⟨rfl, rfl⟩ := pure_cases h
        refine ⟨rfl, hcalls, ?_⟩
        intro reached hreached
        obtain rfl := Except.ok.inj hreached
        refine ⟨valid, rfl, rfl, ?_⟩
        simp [Except.toOption, hreport, SortedMap.insertMany, ParameterName.ofUri]

end

variable {Program σ : Type} [ByteWriter σ] {setting : Setting Program} {run after : Run Program σ}

theorem transform_cases {step : TransformStep} {program : Program} {source : Source}
    {parameters : ParameterSet} {outlet : Outlet} {result : Except Error (Option Xml.Document)}
    (h : perform (setting.transform step program source parameters outlet) run = (result, after)) :
    after.journal.calls = run.journal.calls ++ [.transformed program source parameters]
      ∧ ∀ document?, result = .ok document? →
        ∃ target, (setting.filled program source parameters (outlet.connect run.out)).finish
            setting.files = (.ok (), target)
          ∧ after.out = target.out ∧ document? = target.document? := by
  obtain ⟨_, hperform, hout, _, hcalls⟩ :=
    setting.perform_transform step program source parameters outlet run
  rw [h] at hperform
  obtain ⟨rfl, rfl⟩ := Prod.mk.inj hperform
  refine ⟨hcalls, ?_⟩
  intro document? hdocument
  unfold passage at hdocument hout
  simp only at hdocument hout
  split at hdocument
  · cases hdocument
  · next hending =>
    rw [hending] at hout
    cases hfinish : (setting.filled program source parameters (outlet.connect run.out)).finish
        setting.files with
    | mk finished target =>
      rw [hfinish] at hdocument hout
      cases finished with
      | error error => cases hdocument
      | ok => exact ⟨target, rfl, hout, (Except.ok.inj hdocument).symm⟩

def given (setting : Setting Program) (step : TransformStep) (progress : Progress) : ParameterSet :=
  (ParameterSet.declare setting.parameters step.parameters).merge progress.reports

theorem runTransform_cases {step : TransformStep} {next : Option Step} {progress : Progress}
    {result : Except Error Progress}
    (h : perform (setting.runTransform step next progress) run = (result, after)) :
    (after.SameWork run ∧ ∃ error, result = .error error)
    ∨ ∃ program outlet,
      Outlet.resolve setting.engine.serializers setting.properties (.transform step) next
          = .ok outlet
        ∧ after.journal.calls = run.journal.calls
          ++ [.transformed program progress.source (setting.given step progress)]
        ∧ ∀ reached, result = .ok reached →
          ∃ target, (setting.filled program progress.source (setting.given step progress)
              (outlet.connect run.out)).finish setting.files = (.ok (), target)
            ∧ after.out = target.out ∧ reached.reports = .empty
            ∧ reached.source = (target.document?.map .document).getD progress.source := by
  unfold runTransform at h
  -- A stylesheet that cannot be compiled or has nowhere to write to is not run at all.
  have hcompile := setting.engine.quiet_compileStep setting.inDevelopment step run
  obtain ⟨program, compiled, hprogram, h⟩ | ⟨error, herror, rfl⟩ := bind_cases h
  case inr =>
    rw [herror] at hcompile
    exact .inl ⟨hcompile, error, rfl⟩
  rw [hprogram] at hcompile
  have hresolve := setting.perform_outlet (.transform step) next compiled
  have houtlet := setting.quiet_outlet (.transform step) next compiled
  obtain ⟨outlet, resolved, hfound, h⟩ | ⟨error, herror, rfl⟩ := bind_cases h
  case inr =>
    rw [herror] at houtlet
    exact .inl ⟨houtlet.trans hcompile, error, rfl⟩
  rw [hfound] at houtlet hresolve
  obtain ⟨hout, hcalls⟩ := houtlet.trans hcompile
  refine .inr ⟨program, outlet, hresolve.symm, ?_⟩
  simp only at hout hcalls
  obtain ⟨document?, between, htransform, h⟩ | ⟨error, herror, rfl⟩ := bind_cases h
  case inr =>
    obtain ⟨hmore, _⟩ := transform_cases herror
    rw [hcalls] at hmore
    exact ⟨hmore, by simp⟩
  obtain ⟨hmore, hdone⟩ := transform_cases htransform
  obtain ⟨target, hfinish, htarget, rfl⟩ := hdone document? rfl
  obtain ⟨rfl, rfl⟩ := pure_cases h
  rw [hcalls] at hmore
  rw [hout] at hfinish
  refine ⟨hmore, ?_⟩
  intro reached hreached
  obtain rfl := Except.ok.inj hreached
  exact ⟨target, hfinish, htarget, rfl, rfl⟩

end Setting

namespace Engine

variable {Program σ : Type} [ByteWriter σ] {run after : Run Program σ}

def setting (engine : Engine Program) (files : FileReader) (inDevelopment : Bool)
    (properties : OutputProperties) (parameters : ParameterSet) : Setting Program where
  engine
  files
  inDevelopment
  properties
  parameters := engine.config.baseParameters.merge parameters

theorem execution_eq (engine : Engine Program) (files : FileReader) (pipeline : Pipeline)
    (input : String) (parameters : ParameterSet) (inDevelopment : Bool) :
    (engine.execution files pipeline input parameters inDevelopment : RunM Program σ Summary)
      = if pipeline.steps.isEmpty then
          throw (.notFound none)
        else
          engine.outputProperties inDevelopment pipeline >>= fun properties =>
            if inDevelopment then
              buffered <| (engine.setting files inDevelopment properties parameters).run
                (pipeline.plan engine.config) input
            else
              (engine.setting files inDevelopment properties parameters).run
                (pipeline.plan engine.config) input := by
  unfold execution
  split <;> rfl

theorem execution_cases {engine : Engine Program} {files : FileReader} {pipeline : Pipeline}
    {input : String} {parameters : ParameterSet} {inDevelopment : Bool}
    {result : Except Error Summary}
    (h : perform (engine.execution files pipeline input parameters inDevelopment) run
      = (result, after)) :
    (after.SameWork run ∧ ∃ error, result = .error error)
    ∨ ∃ properties between, between.SameWork run
      ∧ perform
          (if inDevelopment then
            buffered <| (engine.setting files inDevelopment properties parameters).run
              (pipeline.plan engine.config) input
          else
            (engine.setting files inDevelopment properties parameters).run
              (pipeline.plan engine.config) input) between
        = (result, after) := by
  rw [execution_eq] at h
  split at h
  · obtain ⟨rfl, rfl⟩ := Prod.mk.inj h
    exact .inl ⟨⟨rfl, rfl⟩, _, rfl⟩
  · have hquiet := engine.quiet_outputProperties inDevelopment pipeline run
    obtain ⟨properties, between, hproperties, hrun⟩ | ⟨error, herror, rfl⟩ := bind_cases h
    · rw [hproperties] at hquiet
      exact .inr ⟨properties, between, hquiet, hrun⟩
    · rw [herror] at hquiet
      exact .inl ⟨hquiet, error, rfl⟩

end Engine
end XmlPipeline
