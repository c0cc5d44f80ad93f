import XmlPipeline.Proofs.Engine.Conclusion

/-!
This module contains what the marks of the logged steps are good for: nothing that can be seen of an execution
but what the diagnostics get. If the marks are taken from the steps, then each step takes the same turn, and the
execution has the same result.
-/

namespace XmlPipeline

open RunM

/-! ### Steps without marks -/

def TransformStep.unlogged (step : TransformStep) : TransformStep :=
  { step with logged := false }

def ValidatorStep.unlogged (step : ValidatorStep) : ValidatorStep :=
  { step with logged := false }

def SerializerStep.unlogged (step : SerializerStep) : SerializerStep :=
  { step with logged := false }

namespace Step

def unlogged : Step → Step
  | transform step => .transform step.unlogged
  | validate step => .validate step.unlogged
  | serialize kind step => .serialize kind step.unlogged
  | respond step => .respond step

theorem isTerminal_unlogged (step : Step) : step.unlogged.isTerminal = step.isTerminal := by
  cases step <;> rfl

theorem transform?_unlogged (step : Step) :
    step.unlogged.transform? = step.transform?.map TransformStep.unlogged := by
  cases step <;> rfl

end Step

namespace Pipeline

def unlogged (pipeline : Pipeline) : Pipeline :=
  { pipeline with steps := pipeline.steps.map Step.unlogged }

theorem plan_unlogged (pipeline : Pipeline) (config : Config) :
    pipeline.unlogged.plan config = (pipeline.plan config).map Step.unlogged := by
  have hfinishing : (Step.transform config.responseStep).unlogged = .transform config.responseStep := rfl
  unfold plan withFinishingStep unlogged
  simp only
  rw [List.getLast?_map]
  cases pipeline.steps.getLast? with
  | none => simp [hfinishing]
  | some last =>
    simp only [Option.map_some]
    rw [last.isTerminal_unlogged]
    split <;> simp [hfinishing, List.map_dropLast]

theorem lastTransform?_unlogged (pipeline : Pipeline) :
    pipeline.unlogged.lastTransform? = pipeline.lastTransform?.map TransformStep.unlogged := by
  unfold lastTransform? unlogged
  simp only
  rw [← List.map_reverse]
  induction pipeline.steps.reverse with
  | nil => rfl
  | cons step steps ih =>
    rw [List.map_cons, List.findSome?_cons, List.findSome?_cons, step.transform?_unlogged]
    cases step.transform? with
    | none => exact ih
    | some step => rfl

end Pipeline

/--
What these serializers make of a step has nothing to do with its mark.
-/
def SerializerFactory.IgnoresLogging (serializers : SerializerFactory) : Prop :=
  ∀ kind step properties, serializers kind step.unlogged properties = serializers kind step properties

theorem ignoresLogging_builtinSerializers : builtinSerializers.IgnoresLogging := by
  intro kind step properties
  cases kind <;> rfl

variable {Program σ : Type}

/-! ### Requests without marks -/

def Occurrence.unlogged? : Occurrence Program → Option (Occurrence Program)
  | shown .. => none
  | serializing kind step properties => some (.serializing kind step.unlogged properties)
  | occurrence => some occurrence

namespace Journal

def unlogged (journal : Journal Program) : Journal Program :=
  journal.filterMap Occurrence.unlogged?

theorem unlogged_append (journal more : Journal Program) :
    Journal.unlogged (journal ++ more) = journal.unlogged ++ Journal.unlogged more :=
  List.filterMap_append

theorem unlogged_compilation (inDevelopment : Bool) (templates : TemplateCache Program) (path : Path) :
    Journal.unlogged (Engine.compilation inDevelopment templates path)
      = Engine.compilation inDevelopment templates path := by
  obtain h | h := Engine.compilation_cases inDevelopment templates path <;> rw [h] <;> rfl

theorem unlogged_preparation (engine : Engine Program) (pipeline : Pipeline) (inDevelopment : Bool) :
    Journal.unlogged (engine.preparation pipeline inDevelopment)
      = engine.preparation pipeline inDevelopment := by
  obtain h | ⟨path, h⟩ := engine.preparation_cases pipeline inDevelopment <;> rw [h] <;> rfl

theorem unlogged_order (setting : Setting Program) (next : Option Step) :
    Journal.unlogged (setting.order next) = setting.order (next.map Step.unlogged) := by
  cases next with
  | none => rfl
  | some next => cases next <;> rfl

theorem calls_unlogged (journal : Journal Program) : journal.unlogged.calls = journal.calls := by
  unfold unlogged calls
  rw [List.filter_filterMap, ← List.filterMap_eq_filter]
  congr 1
  funext occurrence
  cases occurrence <;> rfl

end Journal

/-! ### Turns without marks -/

def Turn.unlogged (turn : Turn Program) : Turn Program :=
  { turn with step := turn.step.unlogged, requests := turn.requests.unlogged }

theorem Turn.flatMap_unlogged (turns : List (Turn Program)) :
    (turns.map unlogged).flatMap requests = Journal.unlogged (turns.flatMap requests) := by
  unfold Journal.unlogged
  rw [List.flatMap_map, List.filterMap_flatMap]
  rfl

namespace Setting

theorem resolved_unlogged {setting : Setting Program}
    (h : setting.engine.serializers.IgnoresLogging) (step : TransformStep) (next : Option Step) :
    setting.resolved step.unlogged (next.map Step.unlogged) = setting.resolved step next := by
  unfold resolved
  cases next with
  | none => rfl
  | some next =>
    cases next with
    | serialize kind next => exact congrArg (Except.map Outlet.body) (h kind next setting.properties)
    | _ => rfl

theorem showing_unlogged (setting : Setting Program) (step : TransformStep) (events : List Xml.Event) :
    setting.showing step.unlogged events = [] := by
  have hnone : Tee.ofStep? setting.inDevelopment (.transform step.unlogged) = none := by
    simp [Tee.ofStep?, Step.logged, TransformStep.unlogged]
  unfold showing
  rw [hnone]

theorem unlogged_showing (setting : Setting Program) (step : TransformStep) (events : List Xml.Event) :
    Journal.unlogged (setting.showing step events) = [] := by
  unfold showing
  split
  · cases setting.engine.diagnostics <;> rfl
  · rfl

variable [ByteWriter σ] {setting : Setting Program}

theorem transformTurn_unlogged (h : setting.engine.serializers.IgnoresLogging)
    (before : Stage Program σ) (next : Option Step) (step : TransformStep) :
    setting.transformTurn before (next.map Step.unlogged) step.unlogged
      = (setting.transformTurn before next step).map Turn.unlogged id := by
  have hcompilation := Journal.unlogged_compilation setting.inDevelopment before.templates
    (setting.engine.config.templatePath step)
  have horder := Journal.unlogged_order setting next
  have hprogram : setting.program before.templates step.unlogged
      = setting.program before.templates step := rfl
  have hgiven : setting.given step.unlogged before.progress = setting.given step before.progress := rfl
  unfold transformTurn
  simp only
  rw [hprogram, resolved_unlogged h, hgiven]
  cases setting.program before.templates step with
  | mk first templates =>
    cases first with
    | error error =>
      simp only [Prod.map, id, Turn.unlogged, hcompilation]
      rfl
    | ok program =>
      simp only
      cases setting.resolved step next with
      | error error =>
        simp only [Prod.map, id, Turn.unlogged, Journal.unlogged_append, hcompilation, horder]
        rfl
      | ok outlet =>
        have hpassage : setting.passage step.unlogged program before.progress.source
              (setting.given step before.progress) outlet before.out
            = setting.passage step program before.progress.source (setting.given step before.progress)
              outlet before.out :=
          rfl
        simp only
        rw [hpassage]
        cases setting.passage step program before.progress.source (setting.given step before.progress)
            outlet before.out with
        | mk passed out =>
          cases passed with
          | error error =>
            simp only [Prod.map, id, Turn.unlogged, Turn.failed, Journal.unlogged_append, hcompilation,
              horder]
            rfl
          | ok document? =>
            simp only [Prod.map, id, Turn.unlogged, Journal.unlogged_append, hcompilation, horder,
              showing_unlogged, unlogged_showing]
            rfl

theorem turn_unlogged (h : setting.engine.serializers.IgnoresLogging) (before : Stage Program σ)
    (next : Option Step) (step : Step) :
    setting.turn before (next.map Step.unlogged) step.unlogged
      = (setting.turn before next step).map Turn.unlogged id := by
  cases step with
  | transform step => exact transformTurn_unlogged h before next step
  | serialize kind step => rfl
  | respond step => rfl
  | validate step =>
    have hvalidation : setting.validation step.unlogged before.progress
        = setting.validation step before.progress := rfl
    simp only [Step.unlogged, turn, validatorTurn]
    rw [hvalidation]
    cases setting.validation step before.progress <;> rfl

theorem turn_unlogged_head? (h : setting.engine.serializers.IgnoresLogging) {before stage : Stage Program σ}
    {step : Step} {steps : List Step} {turn : Turn Program}
    (hturn : setting.turn before steps.head? step = (turn, stage)) :
    setting.turn before (steps.map Step.unlogged).head? step.unlogged = (turn.unlogged, stage) := by
  rw [List.head?_map, turn_unlogged h, hturn]
  rfl

theorem turns_unlogged (h : setting.engine.serializers.IgnoresLogging) (steps : List Step)
    (stage : Stage Program σ) :
    setting.turns (steps.map Step.unlogged) stage = (setting.turns steps stage).map Turn.unlogged := by
  induction steps generalizing stage with
  | nil => rfl
  | cons step steps ih =>
    rw [List.map_cons]
    cases hstep : step.isTerminal with
    | true =>
      obtain ⟨kind, serializer, rfl⟩ := Step.exists_of_isTerminal hstep
      rfl
    | false =>
      cases hturn : setting.turn stage steps.head? step with
      | mk turn next =>
        have hfailure : turn.unlogged.failure = turn.failure := rfl
        rw [turns_cons hstep hturn,
          turns_cons (step.isTerminal_unlogged.trans hstep) (turn_unlogged_head? h hturn), ih, hfailure]
        split <;> rfl

theorem runSteps_unlogged (h : setting.engine.serializers.IgnoresLogging) (steps : List Step)
    (progress : Progress) {run other : Run Program σ} (hstage : other.stage progress = run.stage progress) :
    let outcome := perform (setting.runSteps steps progress) run
    let unlogged := perform (setting.runSteps (steps.map Step.unlogged) progress) other
    unlogged.1 = outcome.1 ∧ unlogged.2.out = outcome.2.out := by
  -- The journals differ, so the states of the two runs agree in no more than what the next step finds.
  induction steps generalizing progress run other with
  | nil => exact ⟨rfl, congrArg Stage.out hstage⟩
  | cons step steps ih =>
    cases hstep : step.isTerminal with
    | true =>
      obtain ⟨kind, serializer, rfl⟩ := Step.exists_of_isTerminal hstep
      exact ⟨rfl, congrArg Stage.out hstage⟩
    | false =>
      have hunmarked : step.unlogged.isTerminal = false := step.isTerminal_unlogged.trans hstep
      cases hturn : setting.turn (run.stage progress) steps.head? step with
      | mk turn stage =>
        have hunlogged := turn_unlogged_head? h hturn
        rw [← hstage] at hunlogged
        obtain ⟨between, hrun, _, hout, hnext⟩ := perform_runSteps_cons hstep hturn
        obtain ⟨otherBetween, hother, _, hotherOut, hotherNext⟩ := perform_runSteps_cons hunmarked hunlogged
        have hfailure : turn.unlogged.failure = turn.failure := rfl
        simp only
        rw [List.map_cons, hrun, hother, hfailure]
        rw [hfailure] at hotherNext
        cases hend : turn.failure with
        | some error => exact ⟨rfl, hotherOut.trans hout.symm⟩
        | none => exact ih stage.progress ((hotherNext hend).trans (hnext hend).symm)

theorem run_unlogged (h : setting.engine.serializers.IgnoresLogging) (steps : List Step)
    (input : String) {run other : Run Program σ}
    (hstage : other.stage { source := .text input } = run.stage { source := .text input }) :
    let outcome := perform (setting.run steps input) run
    let unlogged := perform (setting.run (steps.map Step.unlogged) input) other
    unlogged.1 = outcome.1 ∧ unlogged.2.out = outcome.2.out := by
  obtain ⟨hresult, hout⟩ := runSteps_unlogged h steps { source := .text input } hstage
  unfold Setting.run
  simp only
  rw [perform_bind, perform_bind]
  cases hsteps : perform (setting.runSteps steps { source := .text input }) run with
  | mk first between =>
    cases hother : perform (setting.runSteps (steps.map Step.unlogged) { source := .text input }) other with
    | mk second otherBetween =>
      rw [hsteps, hother] at hresult hout
      obtain rfl : second = first := hresult
      cases second with
      | error error => exact ⟨rfl, hout⟩
      | ok reached => exact ⟨rfl, hout⟩

end Setting

theorem RunM.buffered_unlogged [ByteWriter σ] {α : Type} {action other : RunM Program ByteSink α}
    {run otherRun : Run Program σ} (hout : otherRun.out = run.out)
    (h : (perform other (otherRun.redirect {})).1 = (perform action (run.redirect {})).1
      ∧ (perform other (otherRun.redirect {})).2.out = (perform action (run.redirect {})).2.out) :
    (perform (buffered other) otherRun).1 = (perform (buffered action) run).1
      ∧ (perform (buffered other) otherRun).2.out = (perform (buffered action) run).2.out := by
  obtain ⟨hresult, hfilled⟩ := h
  rw [perform_buffered, perform_buffered]
  cases hinner : perform action (run.redirect {}) with
  | mk first filled =>
    cases hother : perform other (otherRun.redirect {}) with
    | mk second otherFilled =>
      rw [hinner, hother] at hresult hfilled
      obtain rfl : second = first := hresult
      obtain hfilled : otherFilled.out = filled.out := hfilled
      cases second with
      | error error => exact ⟨rfl, hout⟩
      | ok value =>
        simp only
        rw [hfilled, hout]
        cases ByteWriter.deliver filled.out.received.toList run.out with
        | mk delivered out => cases delivered <;> exact ⟨rfl, rfl⟩

namespace Engine

theorem declared_unlogged (engine : Engine Program) (inDevelopment : Bool)
    (templates : TemplateCache Program) (pipeline : Pipeline) :
    engine.declared inDevelopment templates pipeline.unlogged
      = engine.declared inDevelopment templates pipeline := by
  unfold declared
  rw [pipeline.lastTransform?_unlogged]
  cases pipeline.lastTransform? <;> rfl

theorem preparation_unlogged (engine : Engine Program) (pipeline : Pipeline) (inDevelopment : Bool) :
    engine.preparation pipeline.unlogged inDevelopment = engine.preparation pipeline inDevelopment := by
  unfold preparation
  rw [pipeline.lastTransform?_unlogged]
  cases pipeline.lastTransform? <;> rfl

variable [ByteWriter σ] {engine : Engine Program}

theorem turns_unlogged (h : engine.serializers.IgnoresLogging) (files : FileReader) (pipeline : Pipeline)
    (input : String) (parameters : ParameterSet) (inDevelopment : Bool) (out : σ) :
    engine.turns files pipeline.unlogged input parameters inDevelopment out
      = (engine.turns files pipeline input parameters inDevelopment out).map Turn.unlogged := by
  have hempty : pipeline.unlogged.steps.isEmpty = pipeline.steps.isEmpty := List.isEmpty_map
  unfold turns
  rw [hempty, engine.declared_unlogged]
  split
  · rfl
  · split
    · rfl
    · next properties templates _ =>
      simp only
      rw [pipeline.plan_unlogged]
      split <;> exact Setting.turns_unlogged h _ _

theorem execution_unlogged (h : engine.serializers.IgnoresLogging) (files : FileReader)
    (pipeline : Pipeline) (input : String) (parameters : ParameterSet) (inDevelopment : Bool) (out : σ) :
    let outcome := engine.execute files pipeline input parameters inDevelopment out
    let unlogged := engine.execute files pipeline.unlogged input parameters inDevelopment out
    unlogged.1 = outcome.1 ∧ unlogged.2.out = outcome.2.out := by
  have hperform : ∀ pipeline, engine.execute files pipeline input parameters inDevelopment out
      = perform (engine.execution files pipeline input parameters inDevelopment)
        (engine.startRun inDevelopment out) :=
    fun _ => rfl
  have hempty : pipeline.unlogged.steps.isEmpty = pipeline.steps.isEmpty := List.isEmpty_map
  obtain ⟨between, hbetween, htemplates, hquiet⟩ := engine.perform_outputProperties inDevelopment
    pipeline (engine.startRun inDevelopment out)
  obtain ⟨other, hother, hotherTemplates, hotherQuiet⟩ := engine.perform_outputProperties inDevelopment
    pipeline.unlogged (engine.startRun inDevelopment out)
  have hout : other.out = between.out := hotherQuiet.1.trans hquiet.1.symm
  rw [engine.declared_unlogged] at hother hotherTemplates
  have hstage : other.stage { source := .text input } = between.stage { source := .text input } := by
    unfold Run.stage
    rw [hotherTemplates, htemplates, hout]
  simp only
  rw [hperform, hperform, execution_eq, execution_eq, hempty]
  split
  · exact ⟨rfl, rfl⟩
  · rw [perform_bind, perform_bind, hbetween, hother, pipeline.plan_unlogged]
    cases (engine.declared inDevelopment (engine.startRun inDevelopment out).templates pipeline).1 with
    | error error => exact ⟨rfl, hout⟩
    | ok properties =>
      let setting := engine.setting files inDevelopment properties parameters
      have hsetting : setting.engine.serializers.IgnoresLogging := h
      simp only
      split
      · apply buffered_unlogged hout
        apply Setting.run_unlogged hsetting
        unfold Run.stage Run.redirect
        rw [hotherTemplates, htemplates]
      · exact Setting.run_unlogged hsetting _ input hstage

theorem execute_unlogged (h : engine.serializers.IgnoresLogging) (files : FileReader)
    (pipeline : Pipeline) (input : String) (parameters : ParameterSet) (inDevelopment : Bool) (out : σ) :
    let outcome := engine.execute files pipeline input parameters inDevelopment out
    let unlogged := engine.execute files pipeline.unlogged input parameters inDevelopment out
    unlogged.1 = outcome.1 ∧ unlogged.2.out = outcome.2.out
      ∧ unlogged.2.journal.requests = Journal.unlogged outcome.2.journal.requests := by
  obtain ⟨hresult, hout⟩ := execution_unlogged h files pipeline input parameters inDevelopment out
  obtain ⟨hrequests, _⟩ := engine.execute_turns files pipeline input parameters inDevelopment out
  obtain ⟨hunlogged, _⟩ := engine.execute_turns files pipeline.unlogged input parameters inDevelopment out
  refine ⟨hresult, hout, ?_⟩
  rw [hunlogged, hrequests, preparation_unlogged, turns_unlogged h, Turn.flatMap_unlogged,
    Journal.unlogged_append, Journal.unlogged_preparation]

end Engine
end XmlPipeline
