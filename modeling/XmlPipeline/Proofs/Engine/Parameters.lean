import XmlPipeline.Proofs.Engine.Bindings
import XmlPipeline.Proofs.Engine.Steps

/-!
This module contains the parameters that the stylesheets of a pipeline are given. The main statement is
that each of them gets those of the execution, its own ones, and the reports since the stylesheet before
it.
-/

namespace XmlPipeline

open RunM

variable {Program σ : Type} [ByteWriter σ]

/--
The calls of the processor while steps are run, possibly not all of them, fit the steps. `shared` is what
is bound for each stylesheet, `reports` what the validators have bound since the last one.
-/
inductive Bound (processor : Processor Program) (shared : List (ParameterName × ParameterValue)) :
    (reports : List (ParameterName × ParameterValue)) → List Step → Journal Program → Prop where
  | stop : Bound processor shared reports steps []
  | respond (rest : Bound processor shared reports steps calls) :
    Bound processor shared reports (.respond step :: steps) calls
  | transform {step : TransformStep} {parameters : ParameterSet}
    (given : parameters.Holds (shared ++ step.parameters.map Parameter.binding ++ reports))
    (rest : Bound processor shared [] steps calls) :
    Bound processor shared reports (.transform step :: steps)
      (.transformed program source parameters :: calls)
  | validate {step : ValidatorStep} {validation : Except Error Validation}
    (made : processor.validate step.schemaPaths source (ValidationReport.stepLabel step.name)
      = validation)
    (rest : Bound processor shared (reports ++ step.reported validation) steps calls) :
    Bound processor shared reports (.validate step :: steps)
      (.validated step.schemaPaths source (ValidationReport.stepLabel step.name) :: calls)

namespace Setting

theorem runSteps_bound (setting : Setting Program) {shared : List (ParameterName × ParameterValue)}
    (hshared : setting.parameters.Holds shared) (steps : List Step) {progress : Progress}
    {reports : List (ParameterName × ParameterValue)} (hreports : progress.reports.Holds reports)
    {run after : Run Program σ} {result : Except Error (Progress × Option SerializerKind)}
    (h : perform (setting.runSteps steps progress) run = (result, after)) :
    ∃ calls, after.journal.calls = run.journal.calls ++ calls
      ∧ Bound setting.engine.processor shared reports steps calls := by
  -- The reports that are kept hold what was bound since the last stylesheet, which leaves none behind.
  induction steps generalizing progress reports run with
  | nil =>
    unfold runSteps at h
    obtain ⟨rfl, rfl⟩ := pure_cases h
    exact ⟨[], by simp, .stop⟩
  | cons step steps ih =>
    unfold runSteps at h
    rw [log_bind] at h
    have hcalls := run.calls_log [step.record]
    cases step with
    | serialize kind step =>
      obtain ⟨rfl, rfl⟩ := pure_cases h
      exact ⟨[], by simp [hcalls], .stop⟩
    | respond step =>
      have hsame : ({ progress with
          source := .text step.body
          stepsRun := progress.stepsRun + 1 } : Progress).reports.Holds reports :=
        hreports
      obtain ⟨calls, hafter, hbound⟩ := ih hsame h
      rw [hcalls] at hafter
      exact ⟨calls, hafter, .respond hbound⟩
    | transform step =>
      have hgiven : (setting.given step progress).Holds
          (shared ++ step.parameters.map Parameter.binding ++ reports) :=
        (hshared.declare step.parameters).merge hreports
      obtain ⟨reached, between, hstep, hrest⟩ | ⟨error, herror, rfl⟩ := bind_cases h
      · obtain ⟨_, _, herror⟩ | ⟨program, outlet, _, hcall, hreached⟩ := runTransform_cases hstep
        · cases herror
        · -- The reports are used up, whether the stylesheet looks at them or not.
          obtain ⟨_, _, _, hempty, _⟩ := hreached reached rfl
          have hnone : reached.reports.Holds [] := hempty ▸ ParameterSet.Holds.empty
          obtain ⟨calls, hafter, hbound⟩ := ih hnone hrest
          rw [hcall, hcalls, List.append_assoc] at hafter
          exact ⟨_, hafter, .transform hgiven hbound⟩
      · obtain ⟨hwork, _⟩ | ⟨program, outlet, _, hcall, _⟩ := runTransform_cases herror
        · rw [hwork.2, hcalls]
          exact ⟨[], by simp, .stop⟩
        · rw [hcall, hcalls]
          exact ⟨_, rfl, .transform hgiven .stop⟩
    | validate step =>
      let validation := setting.engine.processor.validate step.schemaPaths
        (.text progress.source.toText) (ValidationReport.stepLabel step.name)
      obtain ⟨reached, between, hstep, hrest⟩ | ⟨error, herror, rfl⟩ := bind_cases h
      · obtain ⟨_, hcall, hreached⟩ := runValidator_cases rfl hstep
        obtain ⟨_, _, _, hnext⟩ := hreached reached rfl
        have hmore := hreports.insertMany (step.reported validation)
        rw [← hnext] at hmore
        obtain ⟨calls, hafter, hbound⟩ := ih hmore hrest
        rw [hcall, hcalls, List.append_assoc] at hafter
        exact ⟨_, hafter, .validate rfl hbound⟩
      · obtain ⟨_, hcall, _⟩ := runValidator_cases rfl herror
        rw [hcall, hcalls]
        exact ⟨_, rfl, .validate rfl .stop⟩

theorem run_bound (setting : Setting Program) {shared : List (ParameterName × ParameterValue)}
    (hshared : setting.parameters.Holds shared) (steps : List Step) (input : String)
    {run after : Run Program σ} {result : Except Error Summary}
    (h : perform (setting.run steps input) run = (result, after)) :
    ∃ calls, after.journal.calls = run.journal.calls ++ calls
      ∧ Bound setting.engine.processor shared [] steps calls := by
  unfold Setting.run at h
  obtain ⟨⟨progress, serializer⟩, between, hsteps, hrest⟩ | ⟨error, herror, rfl⟩ := bind_cases h
  · obtain ⟨calls, hcalls, hbound⟩ := setting.runSteps_bound hshared steps .empty hsteps
    rw [log_bind] at hrest
    obtain ⟨_, rfl⟩ := pure_cases hrest
    exact ⟨calls, (between.calls_log _).trans hcalls, hbound⟩
  · exact setting.runSteps_bound hshared steps .empty herror

end Setting

namespace Engine

theorem execute_bound (engine : Engine Program) (files : FileReader) (pipeline : Pipeline)
    (input : String) (parameters : ParameterSet) (inDevelopment : Bool) (out : σ) :
    Bound engine.processor (engine.config.parameters.map Parameter.binding ++ parameters.toList) []
      (pipeline.plan engine.config)
      (engine.execute files pipeline input parameters inDevelopment out).2.journal.calls := by
  have hshared : ((engine.config.baseParameters).merge parameters).Holds
      (engine.config.parameters.map Parameter.binding ++ parameters.toList) :=
    (ParameterSet.Holds.empty.declare engine.config.parameters).merge parameters.holds_toList
  cases hexecute : engine.execute files pipeline input parameters inDevelopment out with
  | mk result after =>
    obtain ⟨hwork, _⟩ | ⟨properties, between, hwork, hrun⟩ := execution_cases hexecute
    · rw [hwork.2]
      exact .stop
    · let setting := engine.setting files inDevelopment properties parameters
      split at hrun
      · cases hinner : perform (setting.run (pipeline.plan engine.config) input)
            (between.redirect ({} : ByteSink)) with
        | mk inner filled =>
          obtain ⟨hjournal, _⟩ := buffered_cases hrun hinner
          obtain ⟨calls, hcalls, hbound⟩ := setting.run_bound hshared _ input hinner
          have hbefore : (between.redirect ({} : ByteSink)).journal.calls = [] := hwork.2
          rw [hjournal, hcalls, hbefore]
          exact hbound
      · obtain ⟨calls, hcalls, hbound⟩ := setting.run_bound hshared _ input hrun
        have hbefore : between.journal.calls = [] := hwork.2
        rw [hcalls, hbefore]
        exact hbound

end Engine
end XmlPipeline
