import XmlPipeline.Proofs.Engine.Calls
import XmlPipeline.Proofs.Engine.Frame
import XmlPipeline.Proofs.Engine.Unlogged

/-!
This module contains what the diagnostics get of an execution: in development mode the result of each logged
stylesheet that has succeeded, and nothing otherwise. The main statement adds that nothing else of an execution
depends on the marks of the logged steps.
-/

namespace XmlPipeline

open RunM

variable {Program σ : Type}

namespace Turn

def shown? (turn : Turn Program) : Option (String × String) :=
  match turn.step, turn.failure with
  | .transform step, none =>
    if step.logged then some (step.name, ({ events := turn.written } : Xml.Document).toXml true) else none
  | _, _ => none

/--
If a stylesheet succeeds in this turn, then what was written is what the processor has emitted to a target when
it was called.
-/
def Emitted (turn : Turn Program) (processor : Processor Program) : Prop :=
  ∀ step, turn.step = .transform step → turn.failure = none →
    ∃ τ, ∃ _ : ByteWriter τ, ∃ target : Target τ, ∃ program source parameters,
      Journal.calls turn.requests = [.transformed program source parameters]
        ∧ turn.written = (processor.transform program source parameters).emitted target.answer []

end Turn

namespace Journal

theorem shownSteps_append (journal more : Journal Program) :
    Journal.shownSteps (journal ++ more) = journal.shownSteps ++ Journal.shownSteps more :=
  List.filterMap_append

theorem shownSteps_requests (journal : Journal Program) :
    journal.requests.shownSteps = journal.shownSteps := by
  unfold requests shownSteps
  rw [List.filterMap_filter]
  congr 1
  funext occurrence
  cases occurrence <;> rfl

theorem shownSteps_compilation (inDevelopment : Bool) (templates : TemplateCache Program) (path : Path) :
    Journal.shownSteps (Engine.compilation inDevelopment templates path) = [] := by
  obtain h | h := Engine.compilation_cases inDevelopment templates path <;> rw [h] <;> rfl

theorem shownSteps_preparation (engine : Engine Program) (pipeline : Pipeline) (inDevelopment : Bool) :
    Journal.shownSteps (engine.preparation pipeline inDevelopment) = [] := by
  obtain h | ⟨path, h⟩ := engine.preparation_cases pipeline inDevelopment <;> rw [h] <;> rfl

theorem shownSteps_order (setting : Setting Program) (next : Option Step) :
    Journal.shownSteps (setting.order next) = [] := by
  unfold Setting.order
  split <;> rfl

theorem shownSteps_turns {inDevelopment : Bool} {turns : List (Turn Program)}
    (h : ∀ turn ∈ turns, Journal.shownSteps turn.requests
      = if inDevelopment then turn.shown?.toList else []) :
    Journal.shownSteps (turns.flatMap Turn.requests)
      = if inDevelopment then turns.filterMap Turn.shown? else [] := by
  induction turns with
  | nil => cases inDevelopment <;> rfl
  | cons turn turns ih =>
    obtain ⟨hturn, hturns⟩ := List.forall_mem_cons.mp h
    rw [List.flatMap_cons, shownSteps_append, hturn, ih hturns]
    cases inDevelopment with
    | false => rfl
    | true =>
      simp only [↓reduceIte, List.filterMap_cons]
      cases turn.shown? <;> rfl

end Journal

namespace Setting

variable [ByteWriter σ] {setting : Setting Program} {turn : Turn Program} {before stage : Stage Program σ}

theorem shownSteps_closing (h : setting.engine.diagnostics = .kept) {step : TransformStep}
    (hstep : turn.step = .transform step) :
    Journal.shownSteps (setting.closing step turn)
      = if setting.inDevelopment then turn.shown?.toList else [] := by
  unfold closing showing Tee.ofStep? Turn.shown?
  rw [h, hstep]
  cases turn.failure with
  | some error => cases setting.inDevelopment <;> rfl
  | none =>
    have hmark : (Step.transform step).logged = step.logged := rfl
    simp only [hmark]
    cases step.logged with
    | false => cases setting.inDevelopment <;> rfl
    | true => cases setting.inDevelopment <;> rfl

theorem shownSteps_of_turn (h : setting.engine.diagnostics = .kept) {step : Step} {next : Option Step}
    (hstep : step.isTerminal = false) (hturn : setting.turn before next step = (turn, stage)) :
    Journal.shownSteps turn.requests = if setting.inDevelopment then turn.shown?.toList else [] := by
  have hnone : turn.shown? = none → Journal.shownSteps turn.requests = [] →
      Journal.shownSteps turn.requests = if setting.inDevelopment then turn.shown?.toList else [] := by
    intro hshown hrequests
    rw [hshown, hrequests]
    cases setting.inDevelopment <;> rfl
  cases step with
  | serialize kind step => cases hstep
  | respond step =>
    obtain ⟨rfl, _⟩ := Prod.mk.inj hturn
    exact hnone rfl rfl
  | validate step =>
    obtain ⟨hstep, hrequests, _⟩ := validatorTurn_cases hturn
    apply hnone
    · simp [Turn.shown?, hstep]
    · rw [hrequests]
      rfl
  | transform step =>
    have hcompilation := Journal.shownSteps_compilation setting.inDevelopment before.templates
      (setting.engine.config.templatePath step)
    have horder := Journal.shownSteps_order setting next
    obtain ⟨hstep, ⟨hfailure, hrequests⟩ | ⟨program, kept, outlet, _, _, hrequests, _⟩⟩ :=
      transformTurn_cases hturn
    · apply hnone
      · obtain ⟨error, herror⟩ := Option.ne_none_iff_exists'.mp hfailure
        simp [Turn.shown?, hstep, herror]
      · obtain hrequests | hrequests := hrequests
        · rw [hrequests, hcompilation]
        · rw [hrequests, Journal.shownSteps_append, hcompilation, horder]
          rfl
    · rw [hrequests, Journal.shownSteps_append, Journal.shownSteps_append, Journal.shownSteps_append,
        hcompilation, horder]
      exact shownSteps_closing h hstep

theorem emitted_of_turn {step : Step} {next : Option Step}
    (hturn : setting.turn before next step = (turn, stage)) : turn.Emitted setting.engine.processor := by
  intro other hother hsuccess
  obtain rfl : step = .transform other := (step_of_turn hturn).symm.trans hother
  obtain ⟨_, ⟨hfailure, _⟩ | ⟨program, kept, outlet, _, _, hrequests, hwritten, _⟩⟩ :=
    transformTurn_cases hturn
  · exact absurd hsuccess hfailure
  · refine ⟨σ, inferInstance, outlet.connect before.out, program, before.progress.source,
      setting.given other before.progress, ?_, hwritten⟩
    rw [hrequests, Journal.calls_append, Journal.calls_append, Journal.calls_append,
      Journal.calls_compilation, Journal.calls_order, Journal.calls_closing]
    rfl

end Setting

namespace Engine

def observed (engine : Engine Program) : Engine Program :=
  { engine with diagnostics := .kept }

variable [ByteWriter σ]

theorem execute_observed (engine : Engine Program) (files : FileReader) (pipeline : Pipeline)
    (input : String) (parameters : ParameterSet) (inDevelopment : Bool) (out : σ) :
    let outcome := engine.execute files pipeline input parameters inDevelopment out
    let observed := engine.observed.execute files pipeline input parameters inDevelopment out
    outcome.1 = observed.1 ∧ outcome.2.out = observed.2.out
      ∧ outcome.2.journal = observed.2.journal.map engine.diagnostics.told := by
  let frame : Frame Program σ σ := { out := id, diagnostics := engine.diagnostics }
  have hunder : engine.observed.under frame.diagnostics = engine := by
    obtain ⟨config, processor, serializers, diagnostics, templates, isClosed⟩ := engine
    cases diagnostics <;> rfl
  have hstart : frame.apply (engine.observed.startRun inDevelopment out)
      = engine.startRun inDevelopment out :=
    rfl
  have hcommutes := engine.observed.execution_commutes rfl (.inr rfl : frame.Fits inDevelopment) files
    pipeline input parameters (engine.observed.startRun inDevelopment out)
  rw [hunder, hstart] at hcommutes
  have hexecute : engine.execute files pipeline input parameters inDevelopment out
      = (engine.observed.execute files pipeline input parameters inDevelopment out).map id frame.apply :=
    hcommutes
  simp only
  rw [hexecute]
  exact ⟨rfl, rfl, List.nil_append _⟩

theorem observed_shownSteps (engine : Engine Program) (files : FileReader) (pipeline : Pipeline)
    (input : String) (parameters : ParameterSet) (inDevelopment : Bool) (out : σ) :
    let observed := engine.observed.execute files pipeline input parameters inDevelopment out
    let turns := engine.observed.turns files pipeline input parameters inDevelopment out
    observed.2.journal.shownSteps = if inDevelopment then turns.filterMap Turn.shown? else [] := by
  have hshown : ∀ turn ∈ engine.observed.turns files pipeline input parameters inDevelopment out,
      Journal.shownSteps turn.requests = if inDevelopment then turn.shown?.toList else [] := by
    apply forall_turns_of_any
    intro properties τ _ step next turn before stage hstep
    exact Setting.shownSteps_of_turn rfl hstep
  obtain ⟨hrequests, _⟩ :=
    engine.observed.execute_turns files pipeline input parameters inDevelopment out
  simp only
  rw [← Journal.shownSteps_requests, hrequests, Journal.shownSteps_append,
    Journal.shownSteps_preparation, Journal.shownSteps_turns hshown]
  rfl

/--
These executions have the same result and write the same to the response. They ask for the same, but for what
is shown.
-/
structure SameButShown (outcome other : Except Error Summary × Run Program σ) : Prop where
  result : other.1 = outcome.1
  out : other.2.out = outcome.2.out
  calls : other.2.journal.calls = outcome.2.journal.calls
  requests : Journal.unlogged other.2.journal.requests = Journal.unlogged outcome.2.journal.requests

theorem execute_sameButShown {engine : Engine Program} (h : engine.serializers.IgnoresLogging)
    {pipeline other : Pipeline} (hother : other.unlogged = pipeline.unlogged) (files : FileReader)
    (input : String) (parameters : ParameterSet) (inDevelopment : Bool) (out : σ) :
    SameButShown (engine.execute files pipeline input parameters inDevelopment out)
      (engine.execute files other input parameters inDevelopment out) := by
  obtain ⟨hresult, hout, hrequests⟩ :=
    execute_unlogged h files pipeline input parameters inDevelopment out
  obtain ⟨hotherResult, hotherOut, hotherRequests⟩ :=
    execute_unlogged h files other input parameters inDevelopment out
  rw [hother] at hotherResult hotherOut hotherRequests
  have hsame := hotherRequests.symm.trans hrequests
  have hcalls := congrArg Journal.calls hsame
  rw [Journal.calls_unlogged, Journal.calls_unlogged, Journal.calls_requests, Journal.calls_requests]
    at hcalls
  exact ⟨hotherResult.symm.trans hresult, hotherOut.symm.trans hout, hcalls, hsame⟩

/--
What an execution with these turns shows, as the diagnostics that keep what they get tell. The diagnostics of
the engine itself get the same.
-/
structure Shows (engine : Engine Program) (pipeline : Pipeline) (inDevelopment : Bool)
    (turns : List (Turn Program)) (outcome observed : Except Error Summary × Run Program σ) : Prop where
  result : outcome.1 = observed.1
  out : outcome.2.out = observed.2.out
  journal : outcome.2.journal = observed.2.journal.map engine.diagnostics.told
  requests : observed.2.journal.requests
    = engine.preparation pipeline inDevelopment ++ turns.flatMap Turn.requests
  ended : Ended (pipeline.plan engine.config) inDevelopment turns outcome.1
  emitted : ∀ turn ∈ turns, turn.Emitted engine.processor
  shown : observed.2.journal.shownSteps = if inDevelopment then turns.filterMap Turn.shown? else []

theorem execute_shows (engine : Engine Program) (files : FileReader) (pipeline : Pipeline)
    (input : String) (parameters : ParameterSet) (inDevelopment : Bool) (out : σ) :
    engine.Shows pipeline inDevelopment
      (engine.observed.turns files pipeline input parameters inDevelopment out)
      (engine.execute files pipeline input parameters inDevelopment out)
      (engine.observed.execute files pipeline input parameters inDevelopment out) := by
  obtain ⟨hresult, hout, hjournal⟩ :=
    engine.execute_observed files pipeline input parameters inDevelopment out
  obtain ⟨hrequests, hended⟩ :=
    engine.observed.execute_turns files pipeline input parameters inDevelopment out
  have hshown := engine.observed_shownSteps files pipeline input parameters inDevelopment out
  rw [← hresult] at hended
  refine ⟨hresult, hout, hjournal, hrequests, hended, ?_, hshown⟩
  apply forall_turns_of_any
  intro properties τ _ step next turn before stage _
  exact Setting.emitted_of_turn

/--
The marks of the logged steps can be seen from nothing but what is shown. In development mode that is the result
of each logged stylesheet that has succeeded, and nothing otherwise.
-/
theorem execute_teed {engine : Engine Program} (h : engine.serializers.IgnoresLogging)
    {pipeline other : Pipeline} (hother : other.unlogged = pipeline.unlogged) (files : FileReader)
    (input : String) (parameters : ParameterSet) (inDevelopment : Bool) (out : σ) :
    let outcome := engine.execute files pipeline input parameters inDevelopment out
    let observed := engine.observed.execute files pipeline input parameters inDevelopment out
    let turns := engine.observed.turns files pipeline input parameters inDevelopment out
    SameButShown outcome (engine.execute files other input parameters inDevelopment out)
      ∧ engine.Shows pipeline inDevelopment turns outcome observed :=
  ⟨execute_sameButShown h hother files input parameters inDevelopment out,
    engine.execute_shows files pipeline input parameters inDevelopment out⟩

def loggedPipeline : Pipeline where
  steps := [.transform { name := "first", templatePath := "first.xsl", logged := true },
    .transform { name := "second", templatePath := "second.xsl" },
    .serialize .json { name := "third", logged := true }]

theorem execute_teed_loggedPipeline :
    let outcome := sampleEngine.execute sampleFiles loggedPipeline "x" .empty true sampleSink
    let observed := sampleEngine.observed.execute sampleFiles loggedPipeline "x" .empty true sampleSink
    sampleEngine.serializers.IgnoresLogging ∧ loggedPipeline.unlogged ≠ loggedPipeline
      ∧ loggedPipeline.unlogged.unlogged = loggedPipeline.unlogged
      ∧ SameButShown outcome
        (sampleEngine.execute sampleFiles loggedPipeline.unlogged "x" .empty true sampleSink)
      ∧ sampleEngine.Shows loggedPipeline true
        (sampleEngine.observed.turns sampleFiles loggedPipeline "x" .empty true sampleSink) outcome observed
      ∧ observed.2.journal.shownSteps = [("first", "<p>x</p>")] := by
  have hserializers : sampleEngine.serializers.IgnoresLogging := ignoresLogging_builtinSerializers
  have hsame : loggedPipeline.unlogged.unlogged = loggedPipeline.unlogged := rfl
  obtain ⟨hsameButShown, hshows⟩ :=
    execute_teed hserializers hsame sampleFiles "x" .empty true sampleSink
  exact ⟨hserializers, by decide, hsame, hsameButShown, hshows, by decide +kernel⟩

end Engine
end XmlPipeline
