import XmlPipeline.Proofs.Engine.Requests
import XmlPipeline.Proofs.Engine.Threading

/-!
This module contains the turns that the steps of a pipeline take. What comes of a step depends on how far
the execution has come, on the cache of stylesheets and on the writer of the response. An execution is one
turn after the other, up to the first serializer or the first failure.
-/

namespace XmlPipeline

open RunM

/--
What comes of a step when it is its turn: what it asks for, the events that it writes if it is a stylesheet,
and the error that it fails with.
-/
structure Turn (Program : Type) where
  step : Step
  requests : Journal Program := []
  written : List Xml.Event := []
  failure : Option Error := none

structure Stage (Program σ : Type) where
  progress : Progress
  templates : TemplateCache Program
  out : σ

namespace Run

variable {Program σ : Type}

def stage (run : Run Program σ) (progress : Progress) : Stage Program σ where
  progress
  templates := run.templates
  out := run.out

end Run

namespace Turn

variable {Program : Type}

def failed (turn : Turn Program) (error : Error) : Turn Program :=
  { turn with failure := some error }

def result {σ : Type} (turn : Turn Program) (stage : Stage Program σ) : Except Error Progress :=
  match turn.failure with
  | some error => .error error
  | none => .ok stage.progress

structure Taken {σ : Type} (turn : Turn Program) (stage : Stage Program σ) (run after : Run Program σ) :
    Prop where
  requests : after.journal.requests = run.journal.requests ++ turn.requests
  out : after.out = stage.out
  next : turn.failure = none → after.stage stage.progress = stage

end Turn

namespace Setting

section

variable {Program σ : Type} (setting : Setting Program)

def validatorTurn (stage : Stage Program σ) (step : ValidatorStep) :
    Turn Program × Stage Program σ :=
  let turn : Turn Program := {
    step := .validate step
    requests := [validationRequest step stage.progress] }
  match setting.validation step stage.progress with
  | .error error => (turn.failed (.validationFailed step.name error), stage)
  | .ok validation => (turn, { stage with progress := stage.progress.validated step validation })

variable {setting} {turn : Turn Program} {run : Run Program σ} {stage : Stage Program σ}

theorem perform_runValidator_turn {step : ValidatorStep} {progress : Progress}
    (h : setting.validatorTurn (run.stage progress) step = (turn, stage)) :
    ∃ after, perform (setting.runValidator step progress) run = (turn.result stage, after)
      ∧ turn.Taken stage run after := by
  obtain ⟨after, hrun, hout, htemplates⟩ := setting.perform_runValidator step progress run
  have hrequests := setting.requests_runValidator step progress run
  rw [hrun] at hrequests ⊢
  unfold validatorTurn Run.stage at h
  simp only at h
  cases hvalidation : setting.validation step progress with
  | error error =>
    rw [hvalidation] at h
    obtain ⟨rfl, rfl⟩ := Prod.mk.inj h
    exact ⟨after, rfl, hrequests, hout, nofun⟩
  | ok validation =>
    rw [hvalidation] at h
    obtain ⟨rfl, rfl⟩ := Prod.mk.inj h
    refine ⟨after, rfl, hrequests, hout, ?_⟩
    intro _
    unfold Run.stage
    rw [hout, htemplates]

theorem validatorTurn_cases {before : Stage Program σ} {step : ValidatorStep}
    (h : setting.validatorTurn before step = (turn, stage)) :
    turn.step = .validate step ∧ turn.requests = [validationRequest step before.progress]
      ∧ (turn.failure ≠ none
        ∨ ∃ validation, setting.validation step before.progress = .ok validation
          ∧ turn.failure = none
          ∧ stage = { before with progress := before.progress.validated step validation }) := by
  unfold validatorTurn at h
  simp only at h
  split at h
  · obtain ⟨rfl, rfl⟩ := Prod.mk.inj h
    exact ⟨rfl, rfl, .inl (by simp [Turn.failed])⟩
  · next validation hvalidation =>
    obtain ⟨rfl, rfl⟩ := Prod.mk.inj h
    exact ⟨rfl, rfl, .inr ⟨validation, hvalidation, rfl, rfl⟩⟩

end

variable {Program σ : Type} [ByteWriter σ] (setting : Setting Program)

def transformTurn (stage : Stage Program σ) (next : Option Step) (step : TransformStep) :
    Turn Program × Stage Program σ :=
  let compilation := Engine.compilation setting.inDevelopment stage.templates
    (setting.engine.config.templatePath step)
  match setting.program stage.templates step with
  | (.error error, _) =>
    ({ step := .transform step, requests := compilation, failure := some error }, stage)
  | (.ok program, templates) =>
    match setting.resolved step next with
    | .error error =>
      ({ step := .transform step, requests := compilation ++ setting.order next, failure := some error },
        stage)
    | .ok outlet =>
      let parameters := setting.given step stage.progress
      let transformation := setting.transformation step program stage.progress
      let written := transformation.emitted (outlet.connect stage.out).answer []
      let turn : Turn Program := {
        step := .transform step
        requests := compilation ++ setting.order next
          ++ [.transformed program stage.progress.source parameters]
        written }
      match setting.passage step program stage.progress.source parameters outlet stage.out with
      | (.error error, out) => (turn.failed error, { stage with out })
      | (.ok document?, out) =>
        ({ turn with requests := turn.requests ++ setting.showing step written },
          { progress := stage.progress.transformed document?, templates, out })

def turn (stage : Stage Program σ) (next : Option Step) : Step → Turn Program × Stage Program σ
  | .transform step => setting.transformTurn stage next step
  | .validate step => setting.validatorTurn stage step
  | .respond step =>
    ({ step := .respond step }, { stage with progress := stage.progress.responded step })
  | .serialize kind step => ({ step := .serialize kind step }, stage)

def turns : List Step → Stage Program σ → List (Turn Program)
  | [], _ => []
  | step :: steps, stage =>
    if step.isTerminal then
      []
    else
      let (turn, stage) := setting.turn stage steps.head? step
      if turn.failure.isSome then [turn] else turn :: turns steps stage

variable {setting} {turn : Turn Program} {run : Run Program σ} {stage : Stage Program σ}

theorem perform_runTransform_turn {step : TransformStep} {next : Option Step} {progress : Progress}
    (h : setting.transformTurn (run.stage progress) next step = (turn, stage)) :
    ∃ after, perform (setting.runTransform step next progress) run = (turn.result stage, after)
      ∧ turn.Taken stage run after := by
  obtain ⟨compiled, hcompile, hkept, hcompiled⟩ :=
    setting.engine.perform_compileStep setting.inDevelopment step run
  have hcompilation := setting.engine.requests_compileStep setting.inDevelopment step run
  have hquiet := setting.engine.quiet_compileStep setting.inDevelopment step run
  have hparameters : setting.given step progress
      = (ParameterSet.declare setting.parameters step.parameters).merge progress.reports := rfl
  rw [hcompile] at hcompilation hquiet
  unfold transformTurn Run.stage Setting.program at h
  unfold runTransform
  simp only at h ⊢
  rw [← hparameters, perform_bind, hcompile]
  cases hprogram : setting.engine.program setting.inDevelopment run.templates step with
  | mk first templates =>
    rw [hprogram] at h hkept
    cases first with
    | error error =>
      obtain ⟨rfl, rfl⟩ := Prod.mk.inj h
      exact ⟨compiled, rfl, hcompilation, hquiet.1, nofun⟩
    | ok program =>
      have hresolve := setting.perform_outlet (.transform step) next compiled
      have hready := setting.templates_outlet (.transform step) next compiled
      have hsame := (setting.quiet_outlet (.transform step) next compiled).1.trans hquiet.1
      have horder := setting.requests_outlet (.transform step) next compiled
      rw [hcompilation] at horder
      simp only at h ⊢
      rw [perform_bind]
      cases houtlet : perform (setting.outlet (.transform step) next) compiled with
      | mk found ready =>
        rw [houtlet] at hresolve hready hsame horder
        obtain rfl : found = setting.resolved step next := hresolve
        cases hresolved : setting.resolved step next with
        | error error =>
          rw [hresolved] at h
          obtain ⟨rfl, rfl⟩ := Prod.mk.inj h
          refine ⟨ready, rfl, ?_, hsame, nofun⟩
          rw [← List.append_assoc]
          exact horder
        | ok outlet =>
          obtain ⟨after, htransform, hout, htemplates, _⟩ := setting.perform_transform step program
            progress.source (setting.given step progress) outlet ready
          have hrequests := requests_transform htransform
          rw [hresolved] at h
          rw [hsame] at htransform hout hrequests
          rw [horder, List.append_assoc, List.append_assoc, List.append_assoc] at hrequests
          simp only at h ⊢
          rw [perform_bind, htransform]
          cases hpassage : setting.passage step program progress.source (setting.given step progress)
              outlet run.out with
          | mk passed out =>
            rw [hpassage] at h hout hrequests
            cases passed with
            | error error =>
              obtain ⟨rfl, rfl⟩ := Prod.mk.inj h
              refine ⟨after, rfl, ?_, hout, nofun⟩
              simpa [Turn.failed] using hrequests
            | ok document? =>
              obtain ⟨rfl, rfl⟩ := Prod.mk.inj h
              refine ⟨after, rfl, ?_, hout, ?_⟩
              · simpa [transformation] using hrequests
              · intro _
                unfold Run.stage
                rw [htemplates, hready, hkept, hout]

theorem perform_runSteps_cons {step : Step} (hstep : step.isTerminal = false) {steps : List Step}
    {progress : Progress} (h : setting.turn (run.stage progress) steps.head? step = (turn, stage)) :
    ∃ between : Run Program σ, perform (setting.runSteps (step :: steps) progress) run
        = (match turn.failure with
          | some error => (.error error, between)
          | none => perform (setting.runSteps steps stage.progress) between)
      ∧ turn.Taken stage run between := by
  let logged := run.log [step.record]
  have hlogged : logged.journal.requests = run.journal.requests := run.requests_log _
  have hstage : logged.stage progress = run.stage progress := rfl
  rw [← hstage] at h
  cases step with
  | serialize kind step => cases hstep
  | respond step =>
    obtain ⟨rfl, rfl⟩ := Prod.mk.inj h
    refine ⟨logged, rfl, ?_, rfl, fun _ => rfl⟩
    rw [List.append_nil]
    exact hlogged
  | validate step =>
    obtain ⟨after, hrun, hrequests, hout, hnext⟩ := perform_runValidator_turn h
    rw [hlogged] at hrequests
    refine ⟨after, ?_, hrequests, hout, hnext⟩
    rw [runSteps, log_bind, perform_bind, hrun]
    unfold Turn.result
    cases turn.failure <;> rfl
  | transform step =>
    obtain ⟨after, hrun, hrequests, hout, hnext⟩ := perform_runTransform_turn h
    rw [hlogged] at hrequests
    refine ⟨after, ?_, hrequests, hout, hnext⟩
    rw [runSteps, log_bind, perform_bind, hrun]
    unfold Turn.result
    cases turn.failure <;> rfl

def closing (setting : Setting Program) (step : TransformStep) (turn : Turn Program) : Journal Program :=
  if turn.failure.isSome then [] else setting.showing step turn.written

theorem closing_cases (setting : Setting Program) (step : TransformStep) (turn : Turn Program) :
    setting.closing step turn = []
      ∨ ∃ name content, setting.closing step turn = [.shown name content] := by
  unfold closing showing
  split
  · exact .inl rfl
  · split
    · cases setting.engine.diagnostics with
      | logged => exact .inl rfl
      | kept => exact .inr ⟨_, _, rfl⟩
    · exact .inl rfl

theorem transformTurn_cases {before : Stage Program σ} {next : Option Step} {step : TransformStep}
    (h : setting.transformTurn before next step = (turn, stage)) :
    let compilation := Engine.compilation setting.inDevelopment before.templates
      (setting.engine.config.templatePath step)
    let parameters := setting.given step before.progress
    turn.step = .transform step
      ∧ ((turn.failure ≠ none
          ∧ (turn.requests = compilation ∨ turn.requests = compilation ++ setting.order next))
        ∨ ∃ program kept outlet, setting.program before.templates step = (.ok program, kept)
          ∧ setting.resolved step next = .ok outlet
          ∧ turn.requests = compilation ++ setting.order next
            ++ [.transformed program before.progress.source parameters] ++ setting.closing step turn
          ∧ turn.written = (setting.transformation step program before.progress).emitted
            (outlet.connect before.out).answer []
          ∧ (turn.failure ≠ none
            ∨ ∃ document? out, setting.passage step program before.progress.source parameters outlet
                before.out = (.ok document?, out)
              ∧ turn.failure = none
              ∧ stage = { progress := before.progress.transformed document?, templates := kept, out })) := by
  unfold transformTurn at h
  simp only at h ⊢
  split at h
  · obtain ⟨rfl, rfl⟩ := Prod.mk.inj h
    exact ⟨rfl, .inl ⟨by simp, .inl rfl⟩⟩
  · next program kept hprogram =>
    split at h
    · obtain ⟨rfl, rfl⟩ := Prod.mk.inj h
      exact ⟨rfl, .inl ⟨by simp, .inr rfl⟩⟩
    · next outlet hresolved =>
      split at h
      · obtain ⟨rfl, rfl⟩ := Prod.mk.inj h
        refine ⟨rfl, .inr ⟨program, kept, outlet, hprogram, hresolved, ?_, rfl, .inl ?_⟩⟩
        · exact (List.append_nil _).symm
        · simp [Turn.failed]
      · next document? out hpassage =>
        obtain ⟨rfl, rfl⟩ := Prod.mk.inj h
        exact ⟨rfl, .inr ⟨program, kept, outlet, hprogram, hresolved, rfl, rfl,
          .inr ⟨document?, out, hpassage, rfl, rfl⟩⟩⟩

theorem step_of_turn {step : Step} {next : Option Step} {before : Stage Program σ}
    (h : setting.turn before next step = (turn, stage)) : turn.step = step := by
  cases step with
  | serialize kind step =>
    obtain ⟨rfl, _⟩ := Prod.mk.inj h
    rfl
  | respond step =>
    obtain ⟨rfl, _⟩ := Prod.mk.inj h
    rfl
  | validate step =>
    obtain ⟨hstep, _⟩ := validatorTurn_cases h
    exact hstep
  | transform step =>
    obtain ⟨hstep, _⟩ := transformTurn_cases h
    exact hstep

theorem stepsRun_of_turn {step : Step} (hstep : step.isTerminal = false) {next : Option Step}
    {before : Stage Program σ} (h : setting.turn before next step = (turn, stage))
    (hsuccess : turn.failure = none) : stage.progress.stepsRun = before.progress.stepsRun + 1 := by
  cases step with
  | serialize kind step => cases hstep
  | respond step =>
    obtain ⟨_, rfl⟩ := Prod.mk.inj h
    rfl
  | validate step =>
    obtain ⟨_, _, hfailure | ⟨validation, _, _, rfl⟩⟩ := validatorTurn_cases h
    · exact absurd hsuccess hfailure
    · rfl
  | transform step =>
    obtain ⟨_, ⟨hfailure, _⟩ | ⟨program, kept, outlet, _, _, _, _, hend⟩⟩ := transformTurn_cases h
    · exact absurd hsuccess hfailure
    · obtain hfailure | ⟨document?, out, _, _, rfl⟩ := hend
      · exact absurd hsuccess hfailure
      · rfl

theorem coherent_of_turn {step : Step} {next : Option Step} {before : Stage Program σ}
    (hcoherent : before.templates.Coherent setting.engine.processor)
    (h : setting.turn before next step = (turn, stage)) (hsuccess : turn.failure = none) :
    stage.templates.Coherent setting.engine.processor := by
  cases step with
  | serialize kind step =>
    obtain ⟨_, rfl⟩ := Prod.mk.inj h
    exact hcoherent
  | respond step =>
    obtain ⟨_, rfl⟩ := Prod.mk.inj h
    exact hcoherent
  | validate step =>
    obtain ⟨_, _, hfailure | ⟨validation, _, _, rfl⟩⟩ := validatorTurn_cases h
    · exact absurd hsuccess hfailure
    · exact hcoherent
  | transform step =>
    obtain ⟨kept, hprogram, hkept⟩ :=
      Engine.program_of_coherent hcoherent setting.inDevelopment step
    obtain ⟨_, ⟨hfailure, _⟩ | ⟨program, templates, outlet, hcompiled, _, _, _, hend⟩⟩ :=
      transformTurn_cases h
    · exact absurd hsuccess hfailure
    · obtain hfailure | ⟨document?, out, _, _, rfl⟩ := hend
      · exact absurd hsuccess hfailure
      · obtain ⟨_, rfl⟩ := Prod.mk.inj (hprogram.symm.trans hcompiled)
        exact hkept

theorem turns_of_terminal (setting : Setting Program) {steps : List Step} (h : executed steps = [])
    (stage : Stage Program σ) :
    setting.turns steps stage = [] := by
  obtain rfl | ⟨kind, serializer, rest, rfl⟩ := exists_of_executed_nil h
  · rfl
  · rfl

theorem turns_cons {step : Step} (hstep : step.isTerminal = false) {steps : List Step}
    {before stage : Stage Program σ} {turn : Turn Program}
    (h : setting.turn before steps.head? step = (turn, stage)) :
    setting.turns (step :: steps) before
      = if turn.failure.isSome then [turn] else turn :: setting.turns steps stage := by
  rw [turns, h]
  simp [hstep]

theorem forall_turns {invariant : TemplateCache Program → Prop} {good : Turn Program → Prop}
    (hkept : ∀ {step next turn} {before stage : Stage Program σ}, invariant before.templates →
      setting.turn before next step = (turn, stage) → turn.failure = none → invariant stage.templates)
    (hgood : ∀ {step next turn} {before stage : Stage Program σ}, step.isTerminal = false →
      invariant before.templates → setting.turn before next step = (turn, stage) → good turn)
    (steps : List Step) {stage : Stage Program σ} (h : invariant stage.templates) :
    ∀ turn ∈ setting.turns steps stage, good turn := by
  induction steps generalizing stage with
  | nil => nofun
  | cons step steps ih =>
    cases hstep : step.isTerminal with
    | true => simp [turns, hstep]
    | false =>
      cases hturn : setting.turn stage steps.head? step with
      | mk turn next =>
        have hfirst := hgood hstep h hturn
        rw [turns_cons hstep hturn]
        cases hfailure : turn.failure with
        | some error => simpa using hfirst
        | none => exact List.forall_mem_cons.mpr ⟨hfirst, ih (hkept h hturn hfailure)⟩

end Setting
end XmlPipeline
