import XmlPipeline.Proofs.Engine.Steps

/-!
This module contains the executions that fail before anything is written to the response. Which executions
these are, and how they fail, does not depend on the writer of the response.
-/

namespace XmlPipeline

open RunM

namespace Progress

def transformed (progress : Progress) (document? : Option Xml.Document) : Progress where
  source := (document?.map .document).getD progress.source
  stepsRun := progress.stepsRun + 1

def validated (progress : Progress) (step : ValidatorStep) (validation : Validation) : Progress where
  source := .text validation.output
  reports := progress.reports.insertMany (step.reported (.ok validation))
  stepsRun := progress.stepsRun + 1

def responded (progress : Progress) (step : ResponseStep) : Progress :=
  { progress with source := .text step.body, stepsRun := progress.stepsRun + 1 }

end Progress

def Outlet.isMemory : Outlet → Bool
  | document => true
  | final _ => false
  | body _ => true

namespace Setting

section

variable {Program σ : Type} {setting : Setting Program}

theorem templates_outlet (setting : Setting Program) (current : Step) (next : Option Step)
    (run : Run Program σ) :
    (perform (setting.outlet current next) run).2.templates = run.templates := by
  unfold outlet
  split
  · rw [note_bind, log_bind, perform_ofExcept]
    rfl
  · rw [log_bind, perform_ofExcept]
    rfl

def program (setting : Setting Program) (templates : TemplateCache Program) (step : TransformStep) :
    Except Error Program × TemplateCache Program :=
  setting.engine.program setting.inDevelopment templates step

def resolved (setting : Setting Program) (step : TransformStep) (next : Option Step) :
    Except Error Outlet :=
  Outlet.resolve setting.engine.serializers setting.properties (.transform step) next

def transformation (setting : Setting Program) (step : TransformStep) (program : Program)
    (progress : Progress) : Transformation :=
  setting.engine.processor.transform program progress.source (setting.given step progress)

def made (setting : Setting Program) (step : TransformStep) (program : Program)
    (progress : Progress) : Xml.Document where
  events := (setting.transformation step program progress).events

def validation (setting : Setting Program) (step : ValidatorStep) (progress : Progress) :
    Except Error Validation :=
  setting.engine.processor.validate step.schemaPaths (.text progress.source.toText)
    (ValidationReport.stepLabel step.name)

/--
The execution of these steps fails with this error, and no step writes to the response.
-/
inductive Aborted (setting : Setting Program) :
    TemplateCache Program → List Step → Progress → Error → Prop where
  | compilation {templates kept : TemplateCache Program} {step : TransformStep} {steps : List Step}
    {progress : Progress} {error : Error}
    (compiled : setting.program templates step = (.error error, kept)) :
    Aborted setting templates (.transform step :: steps) progress error
  | resolution {templates kept : TemplateCache Program} {step : TransformStep} {steps : List Step}
    {progress : Progress} {program : Program} {error : Error}
    (compiled : setting.program templates step = (.ok program, kept))
    (resolved : setting.resolved step steps.head? = .error error) :
    Aborted setting templates (.transform step :: steps) progress error
  | transformation {templates kept : TemplateCache Program} {step : TransformStep}
    {steps : List Step} {progress : Progress} {program : Program} {outlet : Outlet} {error : Error}
    (compiled : setting.program templates step = (.ok program, kept))
    (resolved : setting.resolved step steps.head? = .ok outlet) (memory : outlet.isMemory)
    (ending : (setting.transformation step program progress).ending = .error error) :
    Aborted setting templates (.transform step :: steps) progress
      (.transformationFailed step.name error)
  | rendering {templates kept : TemplateCache Program} {step : TransformStep} {steps : List Step}
    {progress : Progress} {program : Program} {format : BodyFormat} {error : Error}
    (compiled : setting.program templates step = (.ok program, kept))
    (resolved : setting.resolved step steps.head? = .ok (.body format))
    (ending : (setting.transformation step program progress).ending = .ok ())
    (rendered : format.render setting.files (setting.made step program progress) = .error error) :
    Aborted setting templates (.transform step :: steps) progress error
  | validation {templates : TemplateCache Program} {step : ValidatorStep} {steps : List Step}
    {progress : Progress} {error : Error}
    (validated : setting.validation step progress = .error error) :
    Aborted setting templates (.validate step :: steps) progress (.validationFailed step.name error)
  | afterTransformation {templates kept : TemplateCache Program} {step : TransformStep}
    {steps : List Step} {progress : Progress} {program : Program} {error : Error}
    (compiled : setting.program templates step = (.ok program, kept))
    (resolved : setting.resolved step steps.head? = .ok .document)
    (ending : (setting.transformation step program progress).ending = .ok ())
    (rest : Aborted setting kept steps
      (progress.transformed (some (setting.made step program progress))) error) :
    Aborted setting templates (.transform step :: steps) progress error
  | afterValidation {templates : TemplateCache Program} {step : ValidatorStep} {steps : List Step}
    {progress : Progress} {validation : Validation} {error : Error}
    (validated : setting.validation step progress = .ok validation)
    (rest : Aborted setting templates steps (progress.validated step validation) error) :
    Aborted setting templates (.validate step :: steps) progress error
  | afterResponse {templates : TemplateCache Program} {step : ResponseStep} {steps : List Step}
    {progress : Progress} {error : Error}
    (rest : Aborted setting templates steps (progress.responded step) error) :
    Aborted setting templates (.respond step :: steps) progress error

theorem perform_runValidator (setting : Setting Program) (step : ValidatorStep) (progress : Progress)
    (run : Run Program σ) :
    ∃ after, perform (setting.runValidator step progress) run
        = (((setting.validation step progress).mapError (.validationFailed step.name)).map
            (progress.validated step), after)
      ∧ after.out = run.out ∧ after.templates = run.templates := by
  unfold runValidator validation
  simp only
  rw [note_bind, ofExcept_mapError_bind]
  cases setting.engine.processor.validate step.schemaPaths (.text progress.source.toText)
      (ValidationReport.stepLabel step.name) with
  | error error => exact ⟨_, rfl, rfl, rfl⟩
  | ok validation =>
    obtain ⟨output, report⟩ := validation
    unfold Progress.validated ValidatorStep.reported ValidatorStep.reportKey?
    cases report with
    | none => exact ⟨_, rfl, rfl, rfl⟩
    | some report => cases step.reportName <;> exact ⟨_, rfl, rfl, rfl⟩

end

variable {Program σ : Type} {setting : Setting Program} {kept : TemplateCache Program}
  {step : TransformStep} {next : Option Step} {program : Program} {outlet : Outlet} {error : Error}

theorem perform_resolved {run : Run Program σ}
    (compiled : setting.program run.templates step = (.ok program, kept)) (next : Option Step) :
    ∃ between ready, perform (setting.engine.compileStep setting.inDevelopment step) run
        = (.ok program, between)
      ∧ perform (setting.outlet (.transform step) next) between = (setting.resolved step next, ready)
      ∧ ready.templates = kept ∧ ready.SameWork run := by
  obtain ⟨between, hcompile, hkept, hcompiled⟩ :=
    setting.engine.perform_compileStep setting.inDevelopment step run
  unfold Setting.program at compiled
  rw [compiled] at hcompile hkept
  have hresolve := setting.perform_outlet (.transform step) next between
  have hready := setting.templates_outlet (.transform step) next between
  have hquiet := setting.quiet_outlet (.transform step) next between
  exact ⟨between, _, hcompile, Prod.ext hresolve rfl, hready.trans hkept, hquiet.trans hcompiled⟩

variable [ByteWriter σ] {run : Run Program σ}

theorem perform_runTransform_of_compilation
    (compiled : setting.program run.templates step = (.error error, kept)) (next : Option Step)
    (progress : Progress) :
    ∃ after, perform (setting.runTransform step next progress) run = (.error error, after)
      ∧ after.out = run.out := by
  obtain ⟨after, hcompile, _, hout, _⟩ :=
    setting.engine.perform_compileStep setting.inDevelopment step run
  unfold Setting.program at compiled
  rw [compiled] at hcompile
  refine ⟨after, ?_, hout⟩
  unfold runTransform
  simp only
  rw [perform_bind, hcompile]

theorem perform_runTransform_of_resolution
    (compiled : setting.program run.templates step = (.ok program, kept))
    (resolved : setting.resolved step next = .error error) (progress : Progress) :
    ∃ after, perform (setting.runTransform step next progress) run = (.error error, after)
      ∧ after.out = run.out := by
  obtain ⟨between, after, hcompile, hresolve, _, hout, _⟩ := perform_resolved compiled next
  rw [resolved] at hresolve
  refine ⟨after, ?_, hout⟩
  unfold runTransform
  simp only
  rw [perform_bind, hcompile]
  simp only
  rw [perform_bind, hresolve]

theorem perform_runTransform (compiled : setting.program run.templates step = (.ok program, kept))
    (resolved : setting.resolved step next = .ok outlet) (progress : Progress) :
    let passed := setting.passage step program progress.source (setting.given step progress) outlet
      run.out
    ∃ after, perform (setting.runTransform step next progress) run
        = (passed.1.map progress.transformed, after)
      ∧ after.out = passed.2 ∧ after.templates = kept
      ∧ after.journal.calls = run.journal.calls
        ++ [.transformed program progress.source (setting.given step progress)] := by
  obtain ⟨between, ready, hcompile, hresolve, hkept, hout, hcalls⟩ := perform_resolved compiled next
  obtain ⟨after, htransform, hafter, htemplates, hmore⟩ :=
    setting.perform_transform step program progress.source (setting.given step progress) outlet ready
  rw [resolved] at hresolve
  rw [hout] at htransform hafter
  rw [hcalls] at hmore
  refine ⟨after, ?_, hafter, htemplates.trans hkept, hmore⟩
  have hparameters : setting.given step progress
      = (ParameterSet.declare setting.parameters step.parameters).merge progress.reports := rfl
  unfold runTransform
  simp only
  rw [← hparameters, perform_bind, hcompile]
  simp only
  rw [perform_bind, hresolve]
  simp only
  rw [perform_bind, htransform]
  cases (setting.passage step program progress.source (setting.given step progress) outlet
    run.out).1 <;> rfl

theorem perform_runSteps_of_error {step : TransformStep} {steps : List Step} {progress : Progress}
    {after : Run Program σ}
    (h : perform (setting.runTransform step steps.head? progress)
      (run.log [(Step.transform step).record]) = (.error error, after)) :
    perform (setting.runSteps (.transform step :: steps) progress) run = (.error error, after) := by
  rw [runSteps, log_bind, perform_bind, h]

theorem perform_runSteps_of_compilation
    (compiled : setting.program run.templates step = (.error error, kept)) (steps : List Step)
    (progress : Progress) :
    ∃ after, perform (setting.runSteps (.transform step :: steps) progress) run = (.error error, after)
      ∧ after.out = run.out := by
  let logged := run.log [(Step.transform step).record]
  have hlogged : setting.program logged.templates step = (.error error, kept) := compiled
  obtain ⟨after, hrun, hout⟩ := perform_runTransform_of_compilation hlogged steps.head? progress
  exact ⟨after, perform_runSteps_of_error hrun, hout⟩

theorem perform_runSteps_of_resolution {steps : List Step}
    (compiled : setting.program run.templates step = (.ok program, kept))
    (resolved : setting.resolved step steps.head? = .error error) (progress : Progress) :
    ∃ after, perform (setting.runSteps (.transform step :: steps) progress) run = (.error error, after)
      ∧ after.out = run.out := by
  let logged := run.log [(Step.transform step).record]
  have hlogged : setting.program logged.templates step = (.ok program, kept) := compiled
  obtain ⟨after, hrun, hout⟩ := perform_runTransform_of_resolution hlogged resolved progress
  exact ⟨after, perform_runSteps_of_error hrun, hout⟩

theorem perform_runSteps_transform {steps : List Step}
    (compiled : setting.program run.templates step = (.ok program, kept))
    (resolved : setting.resolved step steps.head? = .ok outlet) (progress : Progress) :
    let passed := setting.passage step program progress.source (setting.given step progress) outlet
      run.out
    ∃ between : Run Program σ, perform (setting.runSteps (.transform step :: steps) progress) run
        = (match passed.1 with
          | .error error => (.error error, between)
          | .ok document? =>
            perform (setting.runSteps steps (progress.transformed document?)) between)
      ∧ between.out = passed.2 ∧ between.templates = kept
      ∧ between.journal.calls = run.journal.calls
        ++ [.transformed program progress.source (setting.given step progress)] := by
  let logged := run.log [(Step.transform step).record]
  have hlogged : setting.program logged.templates step = (.ok program, kept) := compiled
  obtain ⟨between, hrun, hout, hkept, hcalls⟩ := perform_runTransform hlogged resolved progress
  rw [run.calls_log] at hcalls
  refine ⟨between, ?_, hout, hkept, hcalls⟩
  rw [runSteps, log_bind, perform_bind, hrun]
  have hsame : logged.out = run.out := rfl
  rw [hsame]
  cases (setting.passage step program progress.source (setting.given step progress) outlet
    run.out).1 <;> rfl

theorem perform_runSteps_validate (step : ValidatorStep) (steps : List Step) (progress : Progress)
    (run : Run Program σ) :
    ∃ between : Run Program σ, perform (setting.runSteps (.validate step :: steps) progress) run
        = (match setting.validation step progress with
          | .error error => (.error (.validationFailed step.name error), between)
          | .ok validation =>
            perform (setting.runSteps steps (progress.validated step validation)) between)
      ∧ between.out = run.out ∧ between.templates = run.templates
      ∧ ∃ call, between.journal.calls = run.journal.calls ++ [call] := by
  obtain ⟨between, hrun, hout, htemplates⟩ :=
    setting.perform_runValidator step progress (run.log [(Step.validate step).record])
  obtain ⟨_, hcalls, _⟩ := runValidator_cases rfl hrun
  rw [run.calls_log] at hcalls
  refine ⟨between, ?_, hout, htemplates, _, hcalls⟩
  rw [runSteps, log_bind, perform_bind, hrun]
  cases setting.validation step progress <;> rfl

theorem perform_runSteps_respond (step : ResponseStep) (steps : List Step) (progress : Progress)
    (run : Run Program σ) :
    perform (setting.runSteps (.respond step :: steps) progress) run
      = perform (setting.runSteps steps (progress.responded step))
        (run.log [(Step.respond step).record]) :=
  rfl

theorem passage_of_ending {step : TransformStep} {progress : Progress} (memory : outlet.isMemory)
    (ending : (setting.transformation step program progress).ending = .error error) (out : σ) :
    setting.passage step program progress.source (setting.given step progress) outlet out
      = (.error (.transformationFailed step.name error), out) := by
  unfold transformation at ending
  cases outlet with
  | document => rw [passage_document, ending]
  | body format => rw [passage_body, ending]
  | final properties => cases memory

theorem passage_of_rendering {step : TransformStep} {progress : Progress} {format : BodyFormat}
    (ending : (setting.transformation step program progress).ending = .ok ())
    (rendered : format.render setting.files (setting.made step program progress) = .error error)
    (out : σ) :
    setting.passage step program progress.source (setting.given step progress) (.body format) out
      = (.error error, out) := by
  unfold made at rendered
  unfold transformation at ending rendered
  rw [passage_body, ending]
  unfold BodyFormat.writeBody
  simp only
  rw [rendered]
  rfl

theorem passage_to_document {step : TransformStep} {progress : Progress}
    (ending : (setting.transformation step program progress).ending = .ok ()) (out : σ) :
    setting.passage step program progress.source (setting.given step progress) .document out
      = (.ok (some (setting.made step program progress)), out) := by
  unfold transformation at ending
  rw [passage_document, ending]
  rfl

theorem Aborted.perform_runSteps {templates : TemplateCache Program} {steps : List Step}
    {progress : Progress} (h : setting.Aborted templates steps progress error)
    {run : Run Program σ} (htemplates : run.templates = templates) :
    ∃ after, perform (setting.runSteps steps progress) run = (.error error, after)
      ∧ after.out = run.out := by
  induction h generalizing run with
  | @compilation _ _ _ steps progress _ compiled =>
    subst htemplates
    exact perform_runSteps_of_compilation compiled steps progress
  | @resolution _ _ _ _ progress _ _ compiled resolved =>
    subst htemplates
    exact perform_runSteps_of_resolution compiled resolved progress
  | @transformation _ _ _ _ progress _ _ _ compiled resolved memory ending =>
    subst htemplates
    obtain ⟨after, hrun, hout, _⟩ := perform_runSteps_transform compiled resolved progress
    rw [passage_of_ending memory ending] at hrun hout
    exact ⟨after, hrun, hout⟩
  | @rendering _ _ _ _ progress _ _ _ compiled resolved ending rendered =>
    subst htemplates
    obtain ⟨after, hrun, hout, _⟩ := perform_runSteps_transform compiled resolved progress
    rw [passage_of_rendering ending rendered] at hrun hout
    exact ⟨after, hrun, hout⟩
  | @validation _ step steps progress _ validated =>
    obtain ⟨after, hrun, hout, _⟩ := setting.perform_runSteps_validate step steps progress run
    rw [validated] at hrun
    exact ⟨after, hrun, hout⟩
  | @afterTransformation _ _ _ _ progress _ _ compiled resolved ending rest ih =>
    subst htemplates
    obtain ⟨between, hrun, hout, hkept, _⟩ := perform_runSteps_transform compiled resolved progress
    rw [passage_to_document ending] at hrun hout
    obtain ⟨after, hrest, hafter⟩ := ih hkept
    exact ⟨after, hrun.trans hrest, hafter.trans hout⟩
  | @afterValidation _ step steps progress _ _ validated rest ih =>
    obtain ⟨between, hrun, hout, hbetween, _⟩ :=
      setting.perform_runSteps_validate step steps progress run
    rw [validated] at hrun
    obtain ⟨after, hrest, hafter⟩ := ih (hbetween.trans htemplates)
    exact ⟨after, hrun.trans hrest, hafter.trans hout⟩
  | @afterResponse _ step steps progress _ rest ih =>
    rw [perform_runSteps_respond]
    exact ih htemplates

end Setting
end XmlPipeline
